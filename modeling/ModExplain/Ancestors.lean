import ModExplain.Blame
import ModExplain.Prefixes

/-!
# What the walk inspects

Every path looked up is an ancestor of the virtual path, or the path itself, and
the extra lookup for EACCES is of its parent, with two exceptions: `/` has no
`prev_path`, and bytes left on the stack get in behind a trailing slash
(`inspects_ancestors_iff`).
-/

namespace Explain

open Pieces

variable {w : Nat} {env : Env w} {path v : CStr}

/-! ## The ancestors of a virtual path -/

/-- `.`, which stands for a trailing slash. -/
def dotName : Name := ⟨[dot], by decide, by decide, by decide⟩

/-- The names of a virtual path, and `.` for a trailing slash. -/
def walkedNames (v : CStr) : List Name :=
  namesOf v ++ if v ≠ root ∧ v.getLast? = some slash then [dotName] else []

/-- `/` and the paths that end where a component does. -/
def ancestors (v : CStr) : List CStr :=
  (List.range ((walkedNames v).length + 1)).map fun i => absPath ((walkedNames v).take i)

/-- The parent of the final path; `/` is its own. -/
def parentPath (v : CStr) : CStr := absPath (walkedNames v).dropLast

theorem namesOf_append_slash (a b : CStr) :
    namesOf (a ++ slash :: b) = namesOf a ++ namesOf b := by
  unfold namesOf
  rw [pieces_append_sep, List.filterMap_append]

theorem components_eq (h : nul ∉ v) : components v = root :: (walkedNames v).map Name.bytes := by
  unfold components walkedNames
  by_cases hroot : v = root
  · subst hroot
    rfl
  · rw [if_neg hroot, List.map_append, namesOf_bytes h]
    by_cases hend : v.getLast? = some slash
    · rw [if_pos hend, if_pos ⟨hroot, hend⟩]
      rfl
    · rw [if_neg hend, if_neg fun hh => hend hh.2]
      rfl

theorem walkedNames_absPath (ns : List Name) : walkedNames (absPath ns) = ns := by
  unfold walkedNames
  rw [namesOf_absPath, if_neg, List.append_nil]
  rintro ⟨hroot, hend⟩
  cases ns with
  | nil => exact hroot rfl
  | cons n ns => exact getLast?_absPath (by simp) hend

/-- For a normalised path they are its component-boundary prefixes. -/
theorem mem_ancestors_absPath (ns : List Name) (q : CStr) :
    q ∈ ancestors (absPath ns) ↔ BoundaryPrefix (absPath ns) q := by
  unfold ancestors
  rw [walkedNames_absPath, boundaryPrefix_absPath, List.mem_map]
  constructor
  · rintro ⟨i, hi, rfl⟩
    exact ⟨i, Nat.lt_succ_iff.1 (List.mem_range.1 hi), rfl⟩
  · rintro ⟨i, hi, rfl⟩
    exact ⟨i, List.mem_range.2 (Nat.lt_succ_of_le hi), rfl⟩

theorem absPath_take_mem_ancestors (i : Nat) : absPath ((walkedNames v).take i) ∈ ancestors v := by
  unfold ancestors
  rw [List.mem_map]
  rcases Nat.lt_or_ge i (walkedNames v).length with hlt | hge
  · exact ⟨i, List.mem_range.2 (by omega), rfl⟩
  · exact ⟨(walkedNames v).length, List.mem_range.2 (by omega), by
      rw [List.take_length, List.take_of_length_le hge]⟩

theorem absPath_mem_ancestors {ms : List Name} (h : absPath ms ∈ ancestors v) :
    ∃ i, ms = (walkedNames v).take i := by
  unfold ancestors at h
  obtain ⟨i, -, hi⟩ := List.mem_map.1 h
  exact ⟨i, (absPath_injective hi).symm⟩

/-! ## Stale bytes -/

/-- What is read behind the `.` of a trailing slash: the bytes the buffer held,
up to a NUL. -/
def staleBytes (env : Env w) (v : CStr) : CStr := cstrAt (env.stack.drop (v.length + 1))

/-- The first component that is not one of `v`: the `.` when stale bytes are
joined to it, the one after it when a slash comes first. -/
def strayIndex (env : Env w) (v : CStr) : Nat :=
  (namesOf v).length + if (staleBytes env v).head? = some slash then 2 else 1

theorem nul_notMem_staleBytes (env : Env w) (v : CStr) : nul ∉ staleBytes env v :=
  nul_notMem_cstrAt _

theorem namesOf_trailing {u : CStr} : namesOf (u ++ [slash]) = namesOf u := by
  rw [namesOf_append_slash]
  exact List.append_nil _

theorem namesOf_eq_nil_iff {text : CStr} (h : nul ∉ text) :
    namesOf text = [] ↔ ∀ b ∈ text, b = slash := by
  have hpieces : pieces slash text = [] ↔ ∀ b ∈ text, b = slash := pieces_eq_nil_iff text
  rw [← hpieces, ← namesOf_bytes h, List.map_eq_nil_iff]

/-- The components behind a trailing slash. -/
theorem pathSplit_trailing (hw : WritesVirtualPath env path v) (hsplit : SplitsText env)
    (hnul : nul ∉ v) (habs : v.head? = some slash) (hlen : v.length < env.prTunablePathMax)
    (hroot : v ≠ root) (hend : v.getLast? = some slash) :
    pathSplit env path =
      root :: (namesOf v ++ namesOf (dot :: staleBytes env v)).map Name.bytes := by
  obtain ⟨u, rfl⟩ := List.getLast?_eq_some_iff.1 hend
  have hone : (u ++ [slash]).length ≠ 1 := by rwa [Ne, length_eq_one_iff_root habs]
  have htext : nul ∉ u ++ slash :: dot :: staleBytes env (u ++ [slash]) := by
    intro h
    rw [← List.singleton_append, ← List.append_assoc] at h
    rcases List.mem_append.1 h with h | h
    · exact hnul h
    · rcases List.mem_cons.1 h with h | h
      · exact absurd h (by decide)
      · exact nul_notMem_staleBytes _ _ h
  rw [pathSplit_of_write hw hnul (by simp), if_neg hone, if_pos ⟨hend, hlen⟩, hsplit,
    List.append_assoc, List.singleton_append, namesOf_trailing, ← namesOf_append_slash,
    namesOf_bytes htext]
  rfl

/-- Bytes joined to the `.` make another name of it; after a slash they make
further names. -/
theorem namesOf_dot_stale {stale : CStr} (hnul : nul ∉ stale) (h : ∃ b ∈ stale, b ≠ slash) :
    ∃ n rest, namesOf (dot :: stale) = n :: rest ∧
      if stale.head? = some slash then n = dotName ∧ rest ≠ [] else n ≠ dotName := by
  obtain ⟨b, hb, hne⟩ := h
  cases stale with
  | nil => cases hb
  | cons y tl =>
    have htl : nul ∉ tl := fun hm => hnul (List.mem_cons_of_mem _ hm)
    by_cases hy : y = slash
    · subst hy
      have hdot : namesOf (dot :: slash :: tl) = namesOf [dot] ++ namesOf tl :=
        namesOf_append_slash [dot] tl
      have hone : namesOf [dot] = [dotName] := by decide
      rw [hone] at hdot
      refine ⟨dotName, namesOf tl, hdot, ?_⟩
      rw [List.head?_cons, if_pos rfl]
      refine ⟨rfl, fun hnil => hne ?_⟩
      rcases List.mem_cons.1 hb with rfl | hb
      · rfl
      · exact (namesOf_eq_nil_iff htl).1 hnil b hb
    · have hall : nul ∉ dot :: y :: tl := by
        intro hm
        rcases List.mem_cons.1 hm with hm | hm
        · exact absurd hm (by decide)
        · exact hnul hm
      have hdot : dot ≠ slash := by decide
      obtain ⟨rest, hrest⟩ := pieces_cons hdot (y :: tl)
      have hbytes := namesOf_bytes hall
      rw [hrest] at hbytes
      cases hn : namesOf (dot :: y :: tl) with
      | nil =>
        rw [hn] at hbytes
        cases hbytes
      | cons n ns =>
        rw [hn, List.map_cons, List.cons.injEq] at hbytes
        refine ⟨n, ns, rfl, ?_⟩
        rw [if_neg (by simpa using hy)]
        rintro rfl
        have hlen := congrArg List.length hbytes.1
        simp [dotName, hy] at hlen

/-- Up to the stray component the names are those of `v`; with it they are not. -/
theorem take_strayIndex (hend : v ≠ root ∧ v.getLast? = some slash)
    (hstale : ∃ b ∈ staleBytes env v, b ≠ slash) :
    let ms := namesOf v ++ namesOf (dot :: staleBytes env v)
    strayIndex env v ≤ ms.length ∧
      (∀ i < strayIndex env v, ms.take i = (walkedNames v).take i) ∧
      ∀ j, ms.take (strayIndex env v) ≠ (walkedNames v).take j := by
  intro ms
  obtain ⟨n, rest, hextra, hn⟩ := namesOf_dot_stale (nul_notMem_staleBytes env v) hstale
  have hms : ms = namesOf v ++ n :: rest := by rw [← hextra]
  have hwalked : walkedNames v = namesOf v ++ [dotName] := by
    unfold walkedNames
    rw [if_pos hend]
  rw [hms, hwalked]
  unfold strayIndex
  split at hn
  · rename_i hhead
    obtain ⟨rfl, hrest⟩ := hn
    have hpos := List.length_pos_iff.2 hrest
    have hsplit : namesOf v ++ dotName :: rest = (namesOf v ++ [dotName]) ++ rest := by simp
    rw [if_pos hhead, hsplit]
    have hlen : (namesOf v ++ [dotName]).length = (namesOf v).length + 1 := by simp
    refine ⟨by rw [List.length_append, hlen]; omega, fun i hi => ?_, fun j heq => ?_⟩
    · exact List.take_append_of_le_length (by omega)
    · have hl := congrArg List.length heq
      rw [List.length_take, List.length_take, List.length_append, hlen] at hl
      omega
  · rename_i hhead
    rw [if_neg hhead]
    refine ⟨by simp, fun i hi => ?_, fun j heq => ?_⟩
    · rw [List.take_append_of_le_length (by omega), List.take_append_of_le_length (by omega)]
    · have hfirst : (namesOf v ++ n :: rest).take ((namesOf v).length + 1) = namesOf v ++ [n] := by
        have hsplit : namesOf v ++ n :: rest = (namesOf v ++ [n]) ++ rest := by simp
        rw [hsplit]
        exact List.take_left' (by simp)
      rw [hfirst] at heq
      have hlen := congrArg List.length heq
      simp only [List.length_take, List.length_append, List.length_singleton] at hlen
      have hj : (namesOf v ++ [dotName]).length ≤ j := by
        rw [List.length_append, List.length_singleton]
        omega
      rw [List.take_of_length_le hj] at heq
      exact hn (List.singleton_inj.1 (List.append_cancel_left heq))

/-! ## What is looked up -/

/-- Everything looked up is `/` or an ancestor of `v`, or `v`; a lookup more than
there are components is of the parent of the final path, and names it. -/
def InspectsAncestors (env : Env w) (path v : CStr) (wd : World) (r : Option CStr × World) : Prop :=
  ∃ made, r.2.lstatCalls = wd.lstatCalls ++ made ∧
    (∀ call ∈ made, ∃ q ∈ ancestors v, call = some q) ∧
    ((pathSplit env path).length < made.length →
      made.getLast? = some (some (parentPath v)) ∧
      ∀ st, env.lstat (wd.lstatCalls.length + (pathSplit env path).length) (some (parentPath v)) =
          .ok st →
        ∃ text, r.1 = some text ∧ lit "parent directory '" ++ parentPath v ++ lit "'" <:+: text)

/-- `/` is there, and EACCES is blamed on it: `prev_path` is NULL. -/
def LooksUpNull (env : Env w) (v : CStr) (errErrno : Errno) (wd : World) : Prop :=
  v = root ∧ errErrno = .eacces ∧ ∃ st, env.lstat wd.lstatCalls.length (some root) = .ok st

/-- Stale bytes follow the `.` of a trailing slash, and the walk gets as far as to
look up the first path with them in it. -/
structure Strays (env : Env w) (pf : Platform w) (errErrno : Errno) (path v : CStr) (wd : World) :
    Prop where
  trailing : v ≠ root ∧ v.getLast? = some slash
  stale : ∃ b ∈ staleBytes env v, b ≠ slash
  fits : ¬ PathTooLong env pf errErrno path
  goesOn : ∀ i < strayIndex env v,
    ¬ Halts env errErrno (sessLimit env pf.platformSessNameMax .nameMax path)
      (sessLimit env pf.platformSessNoTrunc .noTrunc path) (pathSplit env path) wd i
  looksUp : ¬ TooLong errErrno (sessLimit env pf.platformSessNameMax .nameMax path)
    (sessLimit env pf.platformSessNoTrunc .noTrunc path)
    ((pathSplit env path).getD (strayIndex env v) [])

/-- The text about a leaf names the directory `lstat` found above it. -/
theorem describeLeaf_names_parent (path parent : CStr) (flags : UInt32) (st : Stat) :
    lit "parent directory '" ++ parent ++ lit "'" <:+:
      describeLeaf env path flags (some parent) (.ok st) := by
  have hbegin : lit "; parent directory '" = lit "; " ++ lit "parent directory '" := by decide
  have hend : lit "' has perms " = lit "'" ++ lit " has perms " := by decide
  refine ⟨eaccesLeafText flags path ++ lit "; ", lit " has perms " ++ mode2s st.stMode ++
    lit ", and is owned by UID " ++ env.prUid2str st.stUid ++ lit ", GID " ++
    env.prGid2str st.stGid, ?_⟩
  simp only [describeLeaf, describeParent_eq, describeEaccesFile_eq, hbegin, hend,
    List.append_assoc]

section Walk

variable {pf : Platform w} {errErrno : Errno} {wd : World} {ms : List Name}
  (p : Pool) (flags mode : UInt32)

/-- A path over the limit is not looked up. -/
theorem inspects_of_long (h : PathTooLong env pf errErrno path) :
    InspectsAncestors env path v wd
      (explainPathError env pf (some p) errErrno (some path) flags mode wd) := by
  refine ⟨[], ?_, fun _ hc => absurd hc List.not_mem_nil, fun hlt => absurd hlt (Nat.not_lt_zero _)⟩
  rw [explainPathError_of_long_calls h, List.append_nil]

variable (hjoin : JoinsPaths env)
include hjoin

theorem prefixAt_pathSplit (hcs : pathSplit env path = root :: ms.map Name.bytes) {i : Nat}
    (hi : i ≤ ms.length) : prefixAt env (pathSplit env path) i = absPath (ms.take i) := by
  rw [hcs, prefixAt_absPath hjoin i hi]

/-- The lookups of the first `m` components, while these are those of `v`. -/
theorem calls_ancestors (hcs : pathSplit env path = root :: ms.map Name.bytes) {m : Nat}
    (hm : m ≤ ms.length + 1) (hsame : ∀ i < m, ms.take i = (walkedNames v).take i) :
    ∀ call ∈ (List.range m).map fun i => some (prefixAt env (pathSplit env path) i),
      ∃ q ∈ ancestors v, call = some q := by
  intro call hcall
  obtain ⟨i, hi, rfl⟩ := List.mem_map.1 hcall
  rw [List.mem_range] at hi
  rw [prefixAt_pathSplit hjoin hcs (by omega), hsame i hi]
  exact ⟨_, absPath_take_mem_ancestors i, rfl⟩

/-- A walk that looks up no more than the components. -/
theorem inspects_of_calls (hcs : pathSplit env path = root :: ms.map Name.bytes) {m : Nat}
    (hm : m ≤ ms.length + 1) (hsame : ∀ i < m, ms.take i = (walkedNames v).take i)
    {r : Option CStr × World} (hcalls : r.2.lstatCalls =
      wd.lstatCalls ++ (List.range m).map fun i => some (prefixAt env (pathSplit env path) i)) :
    InspectsAncestors env path v wd r := by
  refine ⟨_, hcalls, calls_ancestors hjoin hcs hm hsame, fun hlt => ?_⟩
  have hlen : (pathSplit env path).length = ms.length + 1 := by rw [hcs]; simp
  rw [List.length_map, List.length_range] at hlt
  omega

/-- Without stray components the walk inspects ancestors, unless it looks up
NULL. -/
theorem inspects_of_components (hcs : pathSplit env path = root :: (walkedNames v).map Name.bytes)
    (hnull : walkedNames v = [] → errErrno = .eacces →
      ¬ ∃ st, env.lstat wd.lstatCalls.length (some root) = .ok st) :
    InspectsAncestors env path v wd
      (explainPathError env pf (some p) errErrno (some path) flags mode wd) := by
  by_cases hfits : PathTooLong env pf errErrno path
  · exact inspects_of_long p flags mode hfits
  have hlen : (pathSplit env path).length = (walkedNames v).length + 1 := by rw [hcs]; simp
  obtain ⟨k, hk, hleast, hlong, hshort, htext⟩ := explainPathError_lookups hfits p flags mode wd
  by_cases hover : TooLong errErrno (sessLimit env pf.platformSessNameMax .nameMax path)
      (sessLimit env pf.platformSessNoTrunc .noTrunc path) ((pathSplit env path).getD k [])
  · exact inspects_of_calls hjoin hcs (by omega) (fun _ _ => rfl) (hlong hover)
  by_cases hextra : k = (pathSplit env path).length - 1 ∧
      (answerAt env (pathSplit env path) wd k).isOk ∧ errErrno = .eacces
  · obtain ⟨hlast, hok, hacc⟩ := hextra
    have hne : walkedNames v ≠ [] := by
      intro hnil
      have hk0 : k = 0 := by rw [hlast, hlen, hnil]; rfl
      have hroot : prefixAt env (pathSplit env path) 0 = root := by
        rw [prefixAt_pathSplit hjoin hcs (Nat.zero_le _)]
        rfl
      unfold answerAt at hok
      rw [hk0, hroot, Nat.add_zero] at hok
      refine hnull hnil hacc ?_
      cases hst : env.lstat wd.lstatCalls.length (some root) with
      | error e =>
        rw [hst] at hok
        cases hok
      | ok st => exact ⟨st, rfl⟩
    have hpos := List.length_pos_iff.2 hne
    have hparent : parentOf env (pathSplit env path) k = some (parentPath v) := by
      rw [hlast, parentOf_last (by omega), prefixAt_pathSplit hjoin hcs (by omega), hlen]
      unfold parentPath
      rw [List.dropLast_eq_take]
      rfl
    have hk1 : k + 1 = (pathSplit env path).length := by omega
    have hcalls := hshort hover
    rw [if_pos ⟨hlast, hok, hacc⟩, hparent] at hcalls
    refine ⟨_, hcalls, fun call hcall => ?_, fun _ => ⟨by simp, fun st hst => ?_⟩⟩
    · rcases List.mem_append.1 hcall with hcall | hcall
      · exact calls_ancestors hjoin hcs (by omega) (fun _ _ => rfl) call hcall
      · refine ⟨parentPath v, ?_, List.mem_singleton.1 hcall⟩
        unfold parentPath
        rw [List.dropLast_eq_take]
        exact absPath_take_mem_ancestors _
    · refine ⟨_, htext hlast hok hacc, ?_⟩
      rw [hparent, hk1, hst]
      exact describeLeaf_names_parent _ _ _ _
  · have hcalls := hshort hover
    rw [if_neg hextra, List.append_nil] at hcalls
    exact inspects_of_calls hjoin hcs (by omega) (fun _ _ => rfl) hcalls

omit hjoin in
/-- NULL is no ancestor. -/
theorem not_inspects_null (hcs : pathSplit env path = [root]) (hacc : errErrno = .eacces) {st : Stat}
    (hst : env.lstat wd.lstatCalls.length (some root) = .ok st) :
    ¬ InspectsAncestors env path v wd
      (explainPathError env pf (some p) errErrno (some path) flags mode wd) := by
  rintro ⟨made, hmade, hall, -⟩
  have hlong : ∀ {nameMax noTrunc : Long w} {c : CStr}, ¬ TooLong errErrno nameMax noTrunc c :=
    not_tooLong (by rw [hacc]; decide)
  have hfits : ¬ PathTooLong env pf errErrno path := by
    rintro ⟨herr, -⟩
    rw [hacc] at herr
    cases herr
  obtain ⟨k, hk, -, -, hshort, -⟩ := explainPathError_lookups hfits p flags mode wd
  have hcalls := hshort hlong
  rw [hcs] at hk hcalls
  obtain rfl : k = 0 := Nat.lt_one_iff.1 hk
  have hans : answerAt env [root] wd 0 = .ok st := hst
  rw [if_pos ⟨rfl, by rw [hans]; rfl, hacc⟩, hmade] at hcalls
  have hnull : none ∈ made := by
    rw [List.append_cancel_left hcalls]
    exact List.mem_append_right _ List.mem_cons_self
  obtain ⟨q, -, hq⟩ := hall none hnull
  cases hq

variable (hcs : pathSplit env path = root :: ms.map Name.bytes) {d : Nat} (hd : d ≤ ms.length)
  (hfits : ¬ PathTooLong env pf errErrno path)
include hcs hd hfits

/-- A walk that gets to look up a path that is no ancestor. -/
theorem not_inspects_stray (hstray : ∀ j, ms.take d ≠ (walkedNames v).take j)
    (hgo : ∀ i < d, ¬ Halts env errErrno (sessLimit env pf.platformSessNameMax .nameMax path)
      (sessLimit env pf.platformSessNoTrunc .noTrunc path) (pathSplit env path) wd i)
    (hlook : ¬ TooLong errErrno (sessLimit env pf.platformSessNameMax .nameMax path)
      (sessLimit env pf.platformSessNoTrunc .noTrunc path) ((pathSplit env path).getD d [])) :
    ¬ InspectsAncestors env path v wd
      (explainPathError env pf (some p) errErrno (some path) flags mode wd) := by
  rintro ⟨made, hmade, hall, -⟩
  obtain ⟨k, hk, hleast, hlong, hshort, -⟩ := explainPathError_lookups hfits p flags mode wd
  have hdk : d ≤ k := by
    by_contra hlt
    exact hgo k (by omega) hleast.1
  have hmem : some (absPath (ms.take d)) ∈ made := by
    have hrange : ∀ m, d < m → some (absPath (ms.take d)) ∈
        (List.range m).map fun i => some (prefixAt env (pathSplit env path) i) := by
      intro m hm
      refine List.mem_map.2 ⟨d, List.mem_range.2 hm, ?_⟩
      rw [prefixAt_pathSplit hjoin hcs hd]
    by_cases hover : TooLong errErrno (sessLimit env pf.platformSessNameMax .nameMax path)
        (sessLimit env pf.platformSessNoTrunc .noTrunc path) ((pathSplit env path).getD k [])
    · have hne : d ≠ k := by
        rintro rfl
        exact hlook hover
      have hcalls := hlong hover
      rw [hmade] at hcalls
      rw [List.append_cancel_left hcalls]
      exact hrange k (by omega)
    · have hcalls := hshort hover
      rw [hmade] at hcalls
      rw [List.append_cancel_left hcalls]
      exact List.mem_append_left _ (hrange (k + 1) (by omega))
  obtain ⟨q, hq, heq⟩ := hall _ hmem
  cases heq
  obtain ⟨j, hj⟩ := absPath_mem_ancestors hq
  exact hstray j hj

/-- A walk that ends before. -/
theorem inspects_of_halt (hsame : ∀ i < d, ms.take i = (walkedNames v).take i)
    (hhalt : (∃ i < d, Halts env errErrno (sessLimit env pf.platformSessNameMax .nameMax path)
        (sessLimit env pf.platformSessNoTrunc .noTrunc path) (pathSplit env path) wd i) ∨
      TooLong errErrno (sessLimit env pf.platformSessNameMax .nameMax path)
        (sessLimit env pf.platformSessNoTrunc .noTrunc path) ((pathSplit env path).getD d [])) :
    InspectsAncestors env path v wd
      (explainPathError env pf (some p) errErrno (some path) flags mode wd) := by
  have hlen : (pathSplit env path).length = ms.length + 1 := by rw [hcs]; simp
  obtain ⟨k, hk, hleast, hlong, hshort, -⟩ := explainPathError_lookups hfits p flags mode wd
  have hkd : k < d ∨ k = d ∧ TooLong errErrno (sessLimit env pf.platformSessNameMax .nameMax path)
      (sessLimit env pf.platformSessNoTrunc .noTrunc path) ((pathSplit env path).getD d []) := by
    rcases hhalt with ⟨i, hi, hh⟩ | hover
    · exact Or.inl (Nat.lt_of_le_of_lt (hleast.2 hh) hi)
    · have hle : k ≤ d := hleast.2 (Or.inl hover)
      rcases Nat.lt_or_eq_of_le hle with hlt | heq
      · exact Or.inl hlt
      · exact Or.inr ⟨heq, hover⟩
  by_cases hover : TooLong errErrno (sessLimit env pf.platformSessNameMax .nameMax path)
      (sessLimit env pf.platformSessNoTrunc .noTrunc path) ((pathSplit env path).getD k [])
  · exact inspects_of_calls hjoin hcs (by omega) (fun i hi => hsame i (by omega)) (hlong hover)
  · have hlt : k < d := by
      rcases hkd with hlt | ⟨rfl, hover'⟩
      · exact hlt
      · exact absurd hover' hover
    have hcalls := hshort hover
    rw [if_neg fun hextra => absurd hextra.1 (by omega), List.append_nil] at hcalls
    exact inspects_of_calls hjoin hcs (by omega) (fun i hi => hsame i (by omega)) hcalls

end Walk

/-! ## The law -/

theorem walkedNames_ne_nil (hnul : nul ∉ v) (habs : v.head? = some slash) (hroot : v ≠ root) :
    walkedNames v ≠ [] := by
  intro hnil
  obtain ⟨hnames, hdot⟩ := List.append_eq_nil_iff.1 hnil
  have hall := (namesOf_eq_nil_iff hnul).1 hnames
  have hend : v.getLast? = some slash := by
    cases hl : v.getLast? with
    | none =>
      rw [List.getLast?_eq_none_iff.1 hl] at habs
      cases habs
    | some b => rw [hall b (List.mem_of_getLast? hl)]
  rw [if_pos ⟨hroot, hend⟩] at hdot
  cases hdot

/-- **Ancestors.**  All that is looked up is an ancestor of the virtual path, and
the extra lookup is of the parent, exactly when `/` is not blamed for an EACCES
and no path with stale bytes in it is reached. -/
theorem inspects_ancestors_iff (hw : WritesVirtualPath env path v) (hsplit : SplitsText env)
    (hjoin : JoinsPaths env) (hnul : nul ∉ v) (habs : v.head? = some slash)
    (hlen : v.length < env.prTunablePathMax) (pf : Platform w) (p : Pool) (errErrno : Errno)
    (flags mode : UInt32) (wd : World) :
    InspectsAncestors env path v wd
        (explainPathError env pf (some p) errErrno (some path) flags mode wd) ↔
      ¬ LooksUpNull env v errErrno wd ∧ ¬ Strays env pf errErrno path v wd := by
  by_cases hstale : (v ≠ root ∧ v.getLast? = some slash) ∧ ∃ b ∈ staleBytes env v, b ≠ slash
  · obtain ⟨hend, hstale⟩ := hstale
    have hnull : ¬ LooksUpNull env v errErrno wd := fun h => hend.1 h.1
    have hcs := pathSplit_trailing hw hsplit hnul habs hlen hend.1 hend.2
    obtain ⟨hd, hsame, hstray⟩ := take_strayIndex hend hstale
    constructor
    · exact fun h => ⟨hnull, fun hs =>
        not_inspects_stray p flags mode hjoin hcs hd hs.fits hstray hs.goesOn hs.looksUp h⟩
    · rintro ⟨-, hnot⟩
      by_cases hfits : PathTooLong env pf errErrno path
      · exact inspects_of_long p flags mode hfits
      · apply inspects_of_halt p flags mode hjoin hcs hd hfits hsame
        by_contra hgo
        push Not at hgo
        exact hnot ⟨hend, hstale, hfits, hgo.1, hgo.2⟩
  · have hstrays : ¬ Strays env pf errErrno path v wd := fun h => hstale ⟨h.trailing, h.stale⟩
    have hcs : pathSplit env path = root :: (walkedNames v).map Name.bytes := by
      rw [← components_eq hnul, pathSplit_components_iff hw hsplit hnul habs hlen]
      by_cases hroot : v = root
      · exact Or.inl hroot
      · by_cases hend : v.getLast? = some slash
        · refine Or.inr (Or.inr fun b hb => ?_)
          by_contra hne
          exact hstale ⟨⟨hroot, hend⟩, b, hb, hne⟩
        · exact Or.inr (Or.inl hend)
    constructor
    · refine fun h => ⟨?_, hstrays⟩
      rintro ⟨rfl, hacc, st, hst⟩
      exact not_inspects_null p flags mode hcs hacc hst h
    · rintro ⟨hnull, -⟩
      apply inspects_of_components p flags mode hjoin hcs
      intro hnil hacc hst
      refine hnull ⟨?_, hacc, hst⟩
      by_contra hroot
      exact walkedNames_ne_nil hnul habs hroot hnil

/-- EACCES for `/home`: `/`, `/home` and `/` again. -/
theorem inspects_ancestors_iff_fileHome :
    InspectsAncestors (treeHost fileHome) (absPath [home]) (absPath [home]) .start
      (explainPathError (treeHost fileHome) .initial (some ⟨0⟩) .eacces (some (absPath [home])) 0 0
        .start) := by
  have hiff := inspects_ancestors_iff (treeHost_laws fileHome (absPath [home])).writes
    (treeHost_laws fileHome (absPath [home])).splits bareHost_joins (by decide) (by decide)
    (by decide) .initial ⟨0⟩ .eacces 0 0 .start
  exact hiff.2 ⟨fun h => absurd h.1 (by decide), fun h => absurd h.trailing.2 (by decide)⟩

/-- EACCES for `/`: NULL is looked up. -/
theorem root_looks_up_null :
    ¬ ∀ (t : FsTree) (v : CStr) (errErrno : Errno), nul ∉ v → v.head? = some slash →
      v.length < (treeHost t).prTunablePathMax →
      InspectsAncestors (treeHost t) v v .start
        (explainPathError (treeHost t) .initial (some ⟨0⟩) errErrno (some v) 0 0 .start) := by
  intro h
  have hroot := h (treeOf []) root .eacces (by decide) rfl (by decide)
  have hst : (treeHost (treeOf [])).lstat 0 (some root) = .ok (aDir true true).stat := rfl
  exact not_inspects_null ⟨0⟩ 0 0 (by decide) rfl hst hroot

end Explain
