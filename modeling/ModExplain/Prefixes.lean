import ModExplain.Kernel

/-!
# The paths the walk builds

For an absolute normalised path the loop builds its component-boundary prefixes,
shortest first, each once, and a walk that runs to the end looks up these and
nothing else (`builtPaths_absPath`).
-/

namespace Explain

open Pieces

variable {w : Nat} {env : Env w} {ns : List Name} {path v : CStr}

/-! ## Splitting and joining again -/

/-- The values `path` takes in the loop over `components`, all iterations run. -/
def builtPaths (env : Env w) : Option CStr → List CStr → List CStr
  | _, [] => []
  | path, component :: components =>
    let path := joinComponent env path component
    path :: builtPaths env (some path) components

/-- `q` is `/`, or ends where a component of `v` ends. -/
def BoundaryPrefix (v q : CStr) : Prop :=
  q = root ∨ q ≠ [] ∧ ∃ rest, v = q ++ rest ∧ (rest = [] ∨ rest.head? = some slash)

/-- From the state of the loop before iteration `i` on. -/
theorem builtPaths_walkState (cs : List CStr) (wd : World) (m : Nat) :
    ∀ i, cs.length = i + m →
      builtPaths env (walkState env cs wd i).path (cs.drop i) =
        (List.range m).map fun j => prefixAt env cs (i + j) := by
  induction m with
  | zero =>
    intro i hi
    rw [List.drop_of_length_le (by omega)]
    rfl
  | succ m ih =>
    intro i hi
    have hlt : i < cs.length := by omega
    have hjoin := walkState_join env cs wd i
    rw [List.getD_eq_getElem _ _ hlt] at hjoin
    have ih := ih (i + 1) (by omega)
    have hpath : (walkState env cs wd (i + 1)).path = some (prefixAt env cs i) := rfl
    rw [hpath] at ih
    rw [List.drop_eq_getElem_cons hlt]
    unfold builtPaths
    rw [hjoin]
    dsimp only
    rw [ih, List.range_succ_eq_map, List.map_cons, List.map_map]
    simp [Function.comp_def, Nat.add_assoc, Nat.add_comm 1]

/-- What the loop builds are the paths it looks up. -/
theorem builtPaths_eq (cs : List CStr) :
    builtPaths env none cs = (List.range cs.length).map (prefixAt env cs) := by
  have h : builtPaths env (walkState env cs .start 0).path (cs.drop 0) = _ :=
    builtPaths_walkState cs .start cs.length 0 (by omega)
  simpa [walkState] using h

/-- The loop builds the paths of the first names, from none to all. -/
theorem builtPaths_pathSplit (hw : WritesVirtualPath env path (absPath ns)) (hsplit : SplitsText env)
    (hjoin : JoinsPaths env) :
    builtPaths env none (pathSplit env path) =
      (List.range (ns.length + 1)).map fun i => absPath (ns.take i) := by
  rw [pathSplit_of_virtual hw hsplit, builtPaths_eq, List.length_cons, List.length_map]
  refine List.map_congr_left fun i hi => ?_
  exact prefixAt_absPath hjoin i (Nat.lt_succ_iff.1 (List.mem_range.1 hi))

theorem absPath_length_snoc (ns : List Name) (n : Name) :
    (absPath ns).length < (absPath (ns ++ [n])).length := by
  have hn : 0 < n.bytes.length := List.length_pos_iff.2 n.ne_nil
  rw [absPath_snoc, List.length_append]
  split
  · rename_i h
    rw [h]
    show 1 < 1 + n.bytes.length
    omega
  · rw [List.length_append]
    omega

theorem absPath_length_take {i j : Nat} (hij : i < j) (hj : j ≤ ns.length) :
    (absPath (ns.take i)).length < (absPath (ns.take j)).length := by
  induction j, hij using Nat.le_induction with
  | base =>
    rw [← List.take_append_getElem (show i < ns.length by omega)]
    exact absPath_length_snoc _ _
  | succ j hlt ih =>
    rw [← List.take_append_getElem (show j < ns.length by omega)]
    exact (ih (by omega)).trans (absPath_length_snoc _ _)

theorem absPath_flatMap (h : ns ≠ []) : absPath ns = (ns.map Name.bytes).flatMap (slash :: ·) := by
  rw [absPath_of_ne_nil h, List.flatMap_map]

theorem take_ne_nil {i : Nat} (hns : ns ≠ []) (hi : i ≠ 0) : ns.take i ≠ [] := by
  rw [Ne, List.take_eq_nil_iff]
  exact fun h => h.elim hi hns

/-- The boundary prefixes of an absolute normalised path are the paths of its
first names. -/
theorem boundaryPrefix_absPath (q : CStr) :
    BoundaryPrefix (absPath ns) q ↔ ∃ i ≤ ns.length, absPath (ns.take i) = q := by
  constructor
  · rintro (rfl | ⟨hne, rest, heq, hrest⟩)
    · exact ⟨0, Nat.zero_le _, rfl⟩
    · by_cases hns : ns = []
      · subst hns
        refine ⟨0, Nat.le_refl _, ?_⟩
        rcases List.singleton_eq_append_iff.1 heq with ⟨hq, -⟩ | ⟨hq, -⟩
        · exact absurd hq hne
        · exact hq.symm
      · rw [absPath_flatMap hns] at heq
        have hsep : ∀ b ∈ ns.map Name.bytes, slash ∉ b := by
          intro b hb
          obtain ⟨n, -, rfl⟩ := List.mem_map.1 hb
          exact n.noSlash
        obtain ⟨i, hi, hq⟩ := flatMap_eq_append hsep heq hrest
        rw [List.length_map] at hi
        have hi0 : i ≠ 0 := by
          rintro rfl
          exact hne hq
        refine ⟨i, hi, ?_⟩
        rw [absPath_flatMap (take_ne_nil hns hi0), hq, List.map_take]
  · rintro ⟨i, hi, rfl⟩
    by_cases hi0 : i = 0
    · subst hi0
      exact Or.inl rfl
    · have hns : ns ≠ [] := by
        rintro rfl
        exact hi0 (Nat.le_zero.1 hi)
      refine Or.inr ⟨absPath_ne_nil _, (ns.drop i).flatMap (fun n => slash :: n.bytes), ?_, ?_⟩
      · rw [absPath_of_ne_nil hns, absPath_of_ne_nil (take_ne_nil hns hi0), ← List.flatMap_append,
          List.take_append_drop]
      · cases ns.drop i with
        | nil => exact Or.inl rfl
        | cons n rest => exact Or.inr rfl

/-- A walk that passes every proper prefix looks up the paths the loop builds. -/
theorem lookups_of_passed (pf : Platform w) (p : Pool) {errErrno : Errno}
    (herr : errErrno ≠ .enametoolong) (hacc : errErrno ≠ .eacces) (flags mode : UInt32) (wd : World)
    (hpassed : ∀ i < (pathSplit env path).length - 1, ∃ st,
      answerAt env (pathSplit env path) wd i = .ok st ∧ DirOrLink st) :
    (explainPathError env pf (some p) errErrno (some path) flags mode wd).2.lstatCalls =
      wd.lstatCalls ++ (builtPaths env none (pathSplit env path)).map some := by
  obtain ⟨k, hk, hleast, hr⟩ := @explainPathError_eq_haltResult w env pf errErrno path herr p flags
    mode wd
  have hlast : k = (pathSplit env path).length - 1 := by
    by_contra hne
    obtain ⟨st, hst, hty⟩ := hpassed k (by omega)
    exact not_dirOrLink_of_stopsAt hleast.1 hst hne hty
  have hall : k + 1 = (pathSplit env path).length := by omega
  rw [hr, haltResult_lookups (not_tooLong herr), loopWorld_lstatCalls, if_neg fun h => hacc h.2.2,
    List.append_nil, hall, builtPaths_eq, List.map_map]
  rfl

/-- **Splitting and joining is lossless.**  The loop over the components of an
absolute normalised path builds its component-boundary prefixes, each once, in
growing length from `/` to the path itself; a walk that runs to the end looks
these up, in this order. -/
theorem builtPaths_absPath (hw : WritesVirtualPath env path (absPath ns)) (hsplit : SplitsText env)
    (hjoin : JoinsPaths env) :
    let built := builtPaths env none (pathSplit env path)
    built.head? = some root ∧ built.getLast? = some (absPath ns) ∧
      built.Pairwise (fun a b => a.length < b.length) ∧ built.Nodup ∧
      built.length = ns.length + 1 ∧ (∀ q, q ∈ built ↔ BoundaryPrefix (absPath ns) q) ∧
      ∀ (pf : Platform w) (p : Pool) (errErrno : Errno) (flags mode : UInt32) (wd : World),
        errErrno ≠ .enametoolong → errErrno ≠ .eacces →
        (∀ i < ns.length, ∃ st,
          env.lstat (wd.lstatCalls.length + i) (some (absPath (ns.take i))) = .ok st ∧
            DirOrLink st) →
        (explainPathError env pf (some p) errErrno (some path) flags mode wd).2.lstatCalls =
          wd.lstatCalls ++ built.map some := by
  intro built
  have hbuilt : built = (List.range (ns.length + 1)).map fun i => absPath (ns.take i) :=
    builtPaths_pathSplit hw hsplit hjoin
  have hpair : built.Pairwise (fun a b => a.length < b.length) := by
    rw [hbuilt, List.pairwise_map]
    refine List.pairwise_lt_range.imp_of_mem fun _ hj hij => ?_
    exact absPath_length_take hij (by rw [List.mem_range] at hj; omega)
  refine ⟨?_, ?_, hpair, ?_, ?_, fun q => ?_, fun pf p errErrno flags mode wd herr hacc hdirs => ?_⟩
  · rw [hbuilt, List.range_succ_eq_map]
    rfl
  · rw [hbuilt, List.range_succ, List.map_append, List.getLast?_append]
    simp
  · exact hpair.imp fun {a b} hlt heq => by
      rw [heq] at hlt
      exact Nat.lt_irrefl _ hlt
  · rw [hbuilt, List.length_map, List.length_range]
  · rw [boundaryPrefix_absPath, hbuilt, List.mem_map]
    constructor
    · rintro ⟨i, hi, rfl⟩
      exact ⟨i, Nat.lt_succ_iff.1 (List.mem_range.1 hi), rfl⟩
    · rintro ⟨i, hi, rfl⟩
      exact ⟨i, List.mem_range.2 (Nat.lt_succ_of_le hi), rfl⟩
  · apply lookups_of_passed pf p herr hacc
    rw [pathSplit_of_virtual hw hsplit, List.length_cons, List.length_map, Nat.add_sub_cancel]
    intro i hi
    unfold answerAt
    rw [prefixAt_absPath hjoin i hi.le]
    exact hdirs i hi

/-- `/home` is there, `/home/bob` is not. -/
theorem builtPaths_absPath_home :
    (explainPathError (treeHost (treeOf [([home], aDir true true)])) .initial (some ⟨0⟩) .enoent
      (some (lit "/home/bob")) explainPathFlWantSearch sIfdir .start).2.lstatCalls =
        [some (lit "/"), some (lit "/home"), some (lit "/home/bob")] := by
  have hbuilt := @builtPaths_absPath 64 (treeHost (treeOf [([home], aDir true true)])) [home, bob]
    (lit "/home/bob") (fun _ => rfl) (fun _ => rfl) bareHost_joins
  refine (hbuilt.2.2.2.2.2.2 .initial ⟨0⟩ .enoent explainPathFlWantSearch sIfdir .start (by decide)
    (by decide) fun i hi => ?_).trans (by decide)
  have hcase : i = 0 ∨ i = 1 := by
    have hi : i < 2 := hi
    omega
  rcases hcase with rfl | rfl
  · exact ⟨_, rfl, Or.inl (by decide)⟩
  · exact ⟨_, rfl, Or.inl (by decide)⟩

end Explain
