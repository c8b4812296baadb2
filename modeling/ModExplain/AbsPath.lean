import ModExplain.PathSplit
import ModExplain.WalkLaw
import Mathlib.Data.List.Basic

/-!
# Absolute normalised paths

An absolute normalised path is `/`, or its names with a `/` before each
(`absPath`).  When the core joins with single slashes and leaves such a path as
it is, `q_i` is the path of its first `i` names (`prefixAt_absPath`), whatever
the buffer of `path_split` held.  In a static filesystem the walk then has three
outcomes, one for each way it ends (`explainPathError_static`), and it ends at
the first prefix that is no directory and no symlink (`explainPathError_endsAt`).
-/

namespace Explain

open Pieces

/-- A file name: not empty, without slash and NUL. -/
structure Name where
  bytes : CStr
  ne_nil : bytes ≠ []
  noSlash : slash ∉ bytes
  noNul : nul ∉ bytes
deriving DecidableEq

/-! Names for runs on fixed inputs. -/

def home : Name := ⟨lit "home", by decide, by decide, by decide⟩
def bob : Name := ⟨lit "bob", by decide, by decide, by decide⟩
def report : Name := ⟨lit "report", by decide, by decide, by decide⟩

theorem name_bytes_injective : Function.Injective Name.bytes := by
  rintro ⟨a, _, _, _⟩ ⟨b, _, _, _⟩ hab
  cases hab
  rfl

/-- The absolute path through the given names. -/
def absPath : List Name → CStr
  | [] => root
  | n :: ns => (n :: ns).flatMap fun n => slash :: n.bytes

theorem absPath_of_ne_nil {ns : List Name} (h : ns ≠ []) :
    absPath ns = ns.flatMap fun n => slash :: n.bytes := by
  cases ns with
  | nil => exact absurd rfl h
  | cons n ns => rfl

theorem head?_absPath (ns : List Name) : (absPath ns).head? = some slash := by
  cases ns <;> rfl

theorem absPath_ne_nil (ns : List Name) : absPath ns ≠ [] := by
  intro h
  have := head?_absPath ns
  rw [h] at this
  cases this

theorem nul_notMem_absPath (ns : List Name) : nul ∉ absPath ns := by
  have hslash : nul ≠ slash := by decide
  cases ns with
  | nil => simpa [absPath, root] using hslash
  | cons n ns =>
    rw [absPath_of_ne_nil (by simp), List.mem_flatMap]
    rintro ⟨m, -, hm⟩
    rcases List.mem_cons.1 hm with h | h
    · exact hslash h
    · exact m.noNul h

theorem pieces_absPath (ns : List Name) : pieces slash (absPath ns) = ns.map Name.bytes := by
  have hnames : ∀ xs ∈ ns.map Name.bytes, xs ≠ [] ∧ slash ∉ xs := by
    intro xs hxs
    obtain ⟨n, -, rfl⟩ := List.mem_map.1 hxs
    exact ⟨n.ne_nil, n.noSlash⟩
  have hflat := pieces_flatMap hnames
  rw [List.flatMap_map] at hflat
  cases ns with
  | nil => simp [absPath, root]
  | cons n ns => rw [absPath_of_ne_nil (by simp), hflat]

theorem absPath_injective : Function.Injective absPath := by
  intro ns ms h
  have hp := congrArg (pieces slash) h
  rw [pieces_absPath, pieces_absPath] at hp
  exact List.map_injective_iff.2 name_bytes_injective hp

/-- A name at the end, joined with one slash. -/
theorem absPath_snoc (ns : List Name) (n : Name) :
    absPath (ns ++ [n]) = (if ns = [] then root else absPath ns ++ [slash]) ++ n.bytes := by
  rw [absPath_of_ne_nil (by simp), List.flatMap_append]
  by_cases h : ns = []
  · subst h
    simp [root]
  · rw [if_neg h, absPath_of_ne_nil h]
    simp

theorem getLast?_absPath {ns : List Name} (h : ns ≠ []) : (absPath ns).getLast? ≠ some slash := by
  obtain ⟨ms, n, rfl⟩ := (List.eq_nil_or_concat' ns).resolve_left h
  rw [absPath_snoc, List.getLast?_append_of_ne_nil _ n.ne_nil]
  exact fun hl => n.noSlash (List.mem_of_getLast? hl)

/-! ## The names in a path -/

def Name.ofBytes? (b : CStr) : Option Name :=
  if h : b ≠ [] ∧ slash ∉ b ∧ nul ∉ b then some ⟨b, h.1, h.2.1, h.2.2⟩ else none

/-- The names in a path. -/
def namesOf (path : CStr) : List Name := (pieces slash path).filterMap Name.ofBytes?

theorem namesOf_absPath (ns : List Name) : namesOf (absPath ns) = ns := by
  unfold namesOf
  rw [pieces_absPath, List.filterMap_map]
  have hof : Name.ofBytes? ∘ Name.bytes = some := by
    funext n
    exact dif_pos ⟨n.ne_nil, n.noSlash, n.noNul⟩
  rw [hof, List.filterMap_some]

theorem namesOf_bytes {text : CStr} (h : nul ∉ text) :
    (namesOf text).map Name.bytes = pieces slash text := by
  unfold namesOf
  rw [List.map_filterMap]
  have hof : ∀ b ∈ pieces slash text, (Name.ofBytes? b).map Name.bytes = some b := by
    intro b hb
    obtain ⟨hne, hsep, hsub⟩ := mem_pieces text hb
    unfold Name.ofBytes?
    rw [dif_pos ⟨hne, hsep, fun hn => h (hsub hn)⟩]
    rfl
  rw [List.filterMap_congr hof, List.filterMap_some]

/-! ## What the core's string functions do -/

variable {w : Nat}

/-- `pdircat` puts exactly one slash between its two arguments. -/
def JoinsPaths (env : Env w) : Prop :=
  ∀ a b : CStr, a ≠ [] → b ≠ [] → b.head? ≠ some slash →
    env.pdircat a b = if a.getLast? = some slash then a ++ b else a ++ slash :: b

/-- What the walk relies on for the path `v`. -/
structure CoreLaws (env : Env w) (v : CStr) : Prop where
  writes : WritesVirtualPath env v v
  splits : SplitsText env
  joins : JoinsPaths env

theorem bareHost_joins : JoinsPaths bareHost := by
  intro a b _ _ hb
  show dirCat a b = _
  unfold dirCat
  rw [if_neg hb]
  simp only [hb, if_false]

variable {env : Env w} {ns : List Name}

/-- The components of any path whose virtual path is `absPath ns`. -/
theorem pathSplit_of_virtual {path : CStr} (hw : WritesVirtualPath env path (absPath ns))
    (hsplit : SplitsText env) : pathSplit env path = root :: ns.map Name.bytes := by
  by_cases hns : ns = []
  · subst hns
    rw [pathSplit_of_write hw (nul_notMem_absPath _) (absPath_ne_nil _)]
    rfl
  · rw [pathSplit_of_no_slash hw hsplit (nul_notMem_absPath _) (head?_absPath _)
      (getLast?_absPath hns), pieces_absPath]

theorem pathSplit_absPath (h : CoreLaws env (absPath ns)) :
    pathSplit env (absPath ns) = root :: ns.map Name.bytes :=
  pathSplit_of_virtual h.writes h.splits

/-- After `/` the components of any path are names. -/
theorem pathSplit_names (hsplit : SplitsText env) (path : CStr) :
    ∃ ns : List Name, pathSplit env path = root :: ns.map Name.bytes := by
  rw [pathSplit_splitBuffer]
  split
  · exact ⟨[], rfl⟩
  · exact ⟨namesOf (cstrAt (splitBuffer env path)), by
      rw [hsplit, namesOf_bytes (nul_notMem_cstrAt _)]⟩

theorem pdircat_absPath (h : JoinsPaths env) (ns : List Name) (n : Name) :
    env.pdircat (absPath ns) n.bytes = absPath (ns ++ [n]) := by
  rw [h _ _ (absPath_ne_nil ns) n.ne_nil fun hh => n.noSlash (List.mem_of_head? hh), absPath_snoc]
  by_cases hns : ns = []
  · subst hns
    rfl
  · rw [if_neg (getLast?_absPath hns), if_neg hns, List.append_assoc, List.singleton_append]

/-- `q_i` is the path of the first `i` names. -/
theorem prefixAt_absPath (h : JoinsPaths env) :
    ∀ i, i ≤ ns.length → prefixAt env (root :: ns.map Name.bytes) i = absPath (ns.take i) := by
  intro i
  induction i with
  | zero =>
    intro _
    rfl
  | succ i ih =>
    intro hi
    have hget : (root :: ns.map Name.bytes).getD (i + 1) [] = ns[i].bytes := by
      simp [List.getD_eq_getElem?_getD, List.getElem?_eq_getElem (show i < ns.length by omega)]
    unfold prefixAt
    rw [ih (by omega), hget, pdircat_absPath h, List.take_append_getElem]

/-! ## The walk in a static filesystem -/

/-- Every lookup of a path gets the answer `fs` has for it. -/
def Static (env : Env w) (fs : CStr → Except Errno Stat) : Prop :=
  ∀ k path, env.lstat k (some path) = fs path

/-- `stat` is a directory or a symlink, where the walk goes on. -/
def DirOrLink (st : Stat) : Prop := sIsdir st.stMode = true ∨ sIslnk st.stMode = true

/-- Where the walk does not stop it found one. -/
theorem dirOrLink_of_not_stopsAt {n i : Nat} {ans : Nat → Except Errno Stat} (hi : i < n)
    (h : ¬ StopsAt n ans i) : ∃ st, ans i = .ok st ∧ DirOrLink st := by
  unfold StopsAt at h
  push Not at h
  obtain ⟨hok, hdir, hlast⟩ := h
  cases hans : ans i with
  | error e => exact absurd hans (hok e)
  | ok st =>
    have hty := hdir (by omega) st hans
    refine ⟨st, rfl, ?_⟩
    unfold DirOrLink
    cases hd : sIsdir st.stMode with
    | true => exact Or.inl rfl
    | false => exact Or.inr (by simpa using hty hd)

/-- What is found where it stops, before the end, is neither. -/
theorem not_dirOrLink_of_stopsAt {n i : Nat} {ans : Nat → Except Errno Stat} {st : Stat}
    (h : StopsAt n ans i) (hans : ans i = .ok st) (hi : i ≠ n - 1) : ¬ DirOrLink st := by
  rcases h with ⟨e, he⟩ | ⟨-, st', hst, hdir, hlink⟩ | hend
  · rw [hans] at he
    cases he
  · rw [hans] at hst
    cases hst
    unfold DirOrLink
    simp [hdir, hlink]
  · exact absurd hend hi

variable {fs : CStr → Except Errno Stat}

theorem answerAt_absPath (h : JoinsPaths env) (hfs : Static env fs) (wd : World) {i : Nat}
    (hi : i ≤ ns.length) :
    answerAt env (root :: ns.map Name.bytes) wd i = fs (absPath (ns.take i)) := by
  unfold answerAt
  rw [prefixAt_absPath h i hi, hfs]

/-- How the walk of `absPath ns` ends at its `k`-th prefix: the lookup fails,
the prefix is no directory, or it is the leaf. -/
inductive WalkEnd (env : Env w) (fs : CStr → Except Errno Stat) (ns : List Name) (errErrno : Errno)
    (flags : UInt32) (k : Nat) : Option CStr → Prop
  | dirLookup {e : Errno} (hk : k < ns.length) (he : fs (absPath (ns.take k)) = .error e) :
      WalkEnd env fs ns errErrno flags k (describeDirLookup env (absPath (ns.take k)) flags e)
  | fileLookup {e : Errno} (hk : k = ns.length) (he : fs (absPath ns) = .error e) :
      WalkEnd env fs ns errErrno flags k (describeFileLookup env (absPath ns) flags e)
  | notDir {st : Stat} (hk : k < ns.length) (hst : fs (absPath (ns.take k)) = .ok st)
      (hty : ¬ DirOrLink st) :
      WalkEnd env fs ns errErrno flags k (some (describeNotDir env (absPath (ns.take k))))
  | leaf {st : Stat} (hk : k = ns.length) (hst : fs (absPath ns) = .ok st)
      (herr : errErrno ≠ .eacces) :
      WalkEnd env fs ns errErrno flags k none
  | leafEacces {st : Stat} (hk : k = ns.length) (hst : fs (absPath ns) = .ok st)
      (herr : errErrno = .eacces) (parent : Option CStr) (res : Except Errno Stat) :
      WalkEnd env fs ns errErrno flags k (some (describeLeaf env (absPath ns) flags parent res))

/-- **The walk in a static filesystem.**  Every prefix before the one it ends at
is a directory or a symlink. -/
theorem explainPathError_static (hcore : CoreLaws env (absPath ns)) (hfs : Static env fs)
    (pf : Platform w) (p : Pool) {errErrno : Errno} (herr : errErrno ≠ .enametoolong)
    (flags mode : UInt32) (wd : World) :
    ∃ k ≤ ns.length,
      (∀ i < k, ∃ st, fs (absPath (ns.take i)) = .ok st ∧ DirOrLink st) ∧
      WalkEnd env fs ns errErrno flags k
        (explainPathError env pf (some p) errErrno (some (absPath ns)) flags mode wd).1 := by
  obtain ⟨k, hk, hleast, hr⟩ := @explainPathError_eq_haltResult w env pf errErrno (absPath ns) herr p
    flags mode wd
  rw [pathSplit_absPath hcore] at hk hleast hr
  have hlen : (root :: ns.map Name.bytes).length = ns.length + 1 := by simp
  rw [hlen] at hk hleast
  have hkle : k ≤ ns.length := by omega
  have hans : ∀ i ≤ ns.length, ∀ wd, answerAt env (root :: ns.map Name.bytes) wd i =
      fs (absPath (ns.take i)) :=
    fun i hi wd => answerAt_absPath hcore.joins hfs wd hi
  have hshort : ∀ {nameMax noTrunc : Long w},
      ¬ TooLong errErrno nameMax noTrunc ((root :: ns.map Name.bytes).getD k []) := not_tooLong herr
  have hleaf : k = ns.length → absPath (ns.take k) = absPath ns := by
    rintro rfl
    rw [List.take_length]
  refine ⟨k, hkle, fun i hi => ?_, ?_⟩
  · -- a prefix before the halt
    have hgo : ¬ StopsAt (ns.length + 1) (answerAt env (root :: ns.map Name.bytes) wd) i :=
      fun hh => absurd (hleast.2 hh) (by omega)
    obtain ⟨st, hst, hty⟩ := dirOrLink_of_not_stopsAt (by omega) hgo
    rw [hans i (by omega)] at hst
    exact ⟨st, hst, hty⟩
  · rw [hr]
    cases hk' : fs (absPath (ns.take k)) with
    | error e =>
      rw [haltResult_error hshort ((hans k hkle _).trans hk'), hlen,
        prefixAt_absPath hcore.joins k hkle]
      by_cases hlast : k = ns.length
      · rw [if_pos (by omega), hleaf hlast]
        exact .fileLookup hlast (by rw [← hleaf hlast, hk'])
      · rw [if_neg (by omega)]
        exact .dirLookup (by omega) hk'
    | ok st =>
      have hst := (hans k hkle (loopWorld env pf (absPath ns) wd)).trans hk'
      by_cases hlast : k = ns.length
      · have hst' : fs (absPath ns) = .ok st := by rw [← hleaf hlast, hk']
        by_cases hacc : errErrno = .eacces
        · rw [haltResult_leaf_eacces hshort hst (by omega) hacc, prefixAt_absPath hcore.joins k hkle,
            hleaf hlast]
          exact .leafEacces hlast hst' hacc _ _
        · rw [haltResult_leaf hshort hst (by omega) hacc]
          exact .leaf hlast hst' hacc
      · rw [haltResult_notDir hshort hst (by omega), prefixAt_absPath hcore.joins k hkle]
        apply WalkEnd.notDir (by omega) hk'
        -- it halts at `k`, which is neither a failure nor the leaf
        rcases hleast.1 with ⟨e, he⟩ | ⟨-, st', hst2, hd, hl⟩ | hend
        · rw [hans k hkle, hk'] at he
          cases he
        · rw [hans k hkle, hk'] at hst2
          cases hst2
          unfold DirOrLink
          simp [hd, hl]
        · omega

/-- The walk goes on past every directory and symlink but the leaf. -/
theorem WalkEnd.stops {errErrno : Errno} {flags : UInt32} {k : Nat} {explained : Option CStr}
    (h : WalkEnd env fs ns errErrno flags k explained) :
    k = ns.length ∨ ¬ ∃ st, fs (absPath (ns.take k)) = .ok st ∧ DirOrLink st := by
  cases h with
  | dirLookup hk he =>
    right
    rintro ⟨st, hst, -⟩
    rw [he] at hst
    cases hst
  | notDir hk hst hty =>
    right
    rintro ⟨st', hst', hty'⟩
    rw [hst] at hst'
    cases hst'
    exact hty hty'
  | fileLookup hk _ => exact Or.inl hk
  | leaf hk _ _ => exact Or.inl hk
  | leafEacces hk _ _ _ _ => exact Or.inl hk

/-- The walk ends at the first prefix that is no directory and no symlink, or
else at the whole path. -/
theorem explainPathError_endsAt (hcore : CoreLaws env (absPath ns)) (hfs : Static env fs) {j : Nat}
    (hj : j ≤ ns.length) (hpre : ∀ i < j, ∃ st, fs (absPath (ns.take i)) = .ok st ∧ DirOrLink st)
    (hstop : j = ns.length ∨ ¬ ∃ st, fs (absPath (ns.take j)) = .ok st ∧ DirOrLink st)
    (pf : Platform w) (p : Pool) {errErrno : Errno} (herr : errErrno ≠ .enametoolong)
    (flags mode : UInt32) (wd : World) :
    WalkEnd env fs ns errErrno flags j
      (explainPathError env pf (some p) errErrno (some (absPath ns)) flags mode wd).1 := by
  obtain ⟨k, hk, hbefore, hend⟩ := explainPathError_static hcore hfs pf p herr flags mode wd
  have hkj : k = j := by
    rcases Nat.lt_trichotomy k j with hlt | heq | hgt
    · rcases hend.stops with hlast | hnot
      · omega
      · exact absurd (hpre k hlt) hnot
    · exact heq
    · rcases hstop with hlast | hnot
      · omega
      · exact absurd (hbefore j hgt) hnot
  exact hkj ▸ hend

end Explain
