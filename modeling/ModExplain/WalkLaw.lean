import ModExplain.Explainers
import ModExplain.PathSplit
import Mathlib.Data.List.GetD
import Mathlib.Data.Nat.Find
import Mathlib.Order.Bounds.Basic

/-!
# What the walk of `explain_path_error` computes

Iteration `i` looks up `prefixAt env cs i`.  The walk goes on past `i` exactly
when the component is short enough, the lookup succeeds, and it is not the last
one and finds a directory or a symlink; so it halts at the least `k` with
`Halts`, in the state `haltResult k` (`walk_eq_haltResult`).  Everything proved
about an explanation is read off that one result.

    explain_path_error, n ≥ 2, errno ≠ ENAMETOOLONG:
      calls  = q₀ … q_k (and q_{n-2} once more for a leaf that EACCES is blamed on)
      result = firstFailureText k                    (explainPathError_first_failure)
-/

namespace Explain

variable {w : Nat} (env : Env w)

/-! ## Texts -/

/-- Two texts that begin differently. -/
theorem ne_of_prefixes {a b x y : CStr} (hab : ¬ a <+: b) (hba : ¬ b <+: a) (hx : a <+: x)
    (hy : b <+: y) : x ≠ y := by
  rintro rfl
  exact (List.prefix_or_prefix_of_prefix hx hy).elim hab hba

/-- What EACCES says about the leaf. -/
def eaccesLeafText (flags : UInt32) (path : CStr) : CStr :=
  if flags &&& explainPathFlWantSearch ≠ 0 then
    lit "file '" ++ path ++ lit "' is not searchable by the user"
  else lit "directory containing '" ++ path ++ lit "' is not writable by the user"

section Texts

variable (path : CStr) (flags : UInt32)

@[simp] theorem describeEnametoolongName_eq (name : CStr) (len max : Nat) :
    describeEnametoolongName env name len max flags =
      lit "path component '" ++ name ++ lit "' exceeds the system maximum name length (" ++
        ul2s len ++ lit " > max " ++ ul2s max ++ lit ")" := by
  simp [describeEnametoolongName, pstrcat]

@[simp] theorem describeEnametoolongPath_eq (len max : Nat) :
    describeEnametoolongPath env path len max flags =
      lit "'" ++ path ++ lit "' exceeds the system maximum path length (" ++ ul2s len ++
        lit " > max " ++ ul2s max ++ lit ")" := by
  simp [describeEnametoolongPath, pstrcat]

@[simp] theorem describeEaccesDir_eq :
    describeEaccesDir env path flags =
      lit "directory '" ++ path ++ lit "' is not searchable by the user" := by
  simp [describeEaccesDir, pstrcat]

@[simp] theorem describeEaccesFile_eq :
    describeEaccesFile env path flags = eaccesLeafText flags path := by
  simp [describeEaccesFile, eaccesLeafText, pstrcat]

@[simp] theorem describeEnoentDir_eq :
    describeEnoentDir env path flags = lit "directory '" ++ path ++ lit "' does not exist" := by
  simp [describeEnoentDir, pstrcat]

@[simp] theorem describeEnoentFile_eq :
    describeEnoentFile env path flags = lit "file '" ++ path ++ lit "' does not exist" := by
  simp [describeEnoentFile, pstrcat]

@[simp] theorem describeNotDir_eq :
    describeNotDir env path = lit "path '" ++ path ++ lit "' does not refer to a directory" := by
  simp [describeNotDir, pstrcat]

@[simp] theorem describeParent_eq (explained : CStr) (st : Stat) :
    describeParent env explained (some path) st =
      explained ++ lit "; parent directory '" ++ path ++ lit "' has perms " ++ mode2s st.stMode ++
        lit ", and is owned by UID " ++ env.prUid2str st.stUid ++ lit ", GID " ++
        env.prGid2str st.stGid := by
  simp [describeParent, pstrcat]

end Texts

/-! ## The prefixes and where the walk halts -/

/-- `q_i`: the first component, then one more component a time. -/
def prefixAt (cs : List CStr) : Nat → CStr
  | 0 => cs.getD 0 []
  | i + 1 => env.pdircat (prefixAt cs i) (cs.getD (i + 1) [])

/-- The answer to the lookup of `q_i` in a walk begun in `wd`. -/
def answerAt (cs : List CStr) (wd : World) (i : Nat) : Except Errno Stat :=
  env.lstat (wd.lstatCalls.length + i) (some (prefixAt env cs i))

/-- The world after the successful lookups of `q_0, …, q_{i-1}`. -/
def worldAt (cs : List CStr) (wd : World) (i : Nat) : World :=
  { wd with lstatCalls := wd.lstatCalls ++ (List.range i).map fun j => some (prefixAt env cs j) }

/-- The lookup fails, or finds something to stop at, or is the last of `n`. -/
def StopsAt (n : Nat) (ans : Nat → Except Errno Stat) (i : Nat) : Prop :=
  (∃ e, ans i = .error e) ∨
  (i < n - 1 ∧ ∃ st, ans i = .ok st ∧ sIsdir st.stMode = false ∧ sIslnk st.stMode = false) ∨
  i = n - 1

/-- The component's length accounts for an `ENAMETOOLONG`. -/
def TooLong (errErrno : Errno) (nameMax noTrunc : Long w) (component : CStr) : Prop :=
  errErrno = .enametoolong ∧ nameMax.toNat < component.length ∧ noTrunc = 1

/-- The path is over the path limit. -/
def PathTooLong (pf : Platform w) (errErrno : Errno) (path : CStr) : Prop :=
  let pathMax := sessLimit env pf.platformSessPathMax .pathMax path
  errErrno = .enametoolong ∧ 0 < pathMax.toNat ∧ pathMax.toNat < path.length

instance (errErrno : Errno) (nameMax noTrunc : Long w) (component : CStr) :
    Decidable (TooLong errErrno nameMax noTrunc component) :=
  inferInstanceAs (Decidable (_ ∧ _ ∧ _))

section Walk

variable (errErrno : Errno) (flags : UInt32) (nameMax noTrunc : Long w) (cs : List CStr) (wd : World)

/-- The walk goes no further than component `i`. -/
def Halts (i : Nat) : Prop :=
  TooLong errErrno nameMax noTrunc (cs.getD i []) ∨ StopsAt cs.length (answerAt env cs wd) i

/-- The variables of the loop before iteration `i`. -/
def walkState : Nat → Walk
  | 0 => ⟨none, none, none, wd⟩
  | i + 1 => ⟨some (prefixAt env cs i), some (prefixAt env cs i), none, worldAt env cs wd (i + 1)⟩

/-- `q_{k-1}`, NULL before the first component. -/
def parentOf : Nat → Option CStr
  | 0 => none
  | k + 1 => some (prefixAt env cs k)

/-- What the walk returns and leaves behind when it halts at `k`. -/
def haltResult (k : Nat) : Option CStr × World :=
  let path := prefixAt env cs k
  if TooLong errErrno nameMax noTrunc (cs.getD k []) then
    (some (describeEnametoolongName env (cs.getD k []) (cs.getD k []).length nameMax.toNat flags),
      worldAt env cs wd k)
  else match answerAt env cs wd k with
    | .error e =>
      (if k = cs.length - 1 then describeFileLookup env path flags e
        else describeDirLookup env path flags e,
        { worldAt env cs wd (k + 1) with errno := e })
    | .ok _ =>
      if k ≠ cs.length - 1 then (some (describeNotDir env path), worldAt env cs wd (k + 1))
      else if errErrno = .eacces then
        let parent := prFsioLstat env (parentOf env cs k) (worldAt env cs wd (k + 1))
        (some (describeLeaf env path flags (parentOf env cs k) parent.1), parent.2)
      else (none, worldAt env cs wd (k + 1))

/-! ## One iteration -/

@[simp] theorem worldAt_zero : worldAt env cs wd 0 = wd := by
  simp [worldAt]

theorem prFsioLstat_worldAt (i : Nat) :
    prFsioLstat env (some (prefixAt env cs i)) (worldAt env cs wd i) =
      (answerAt env cs wd i,
        { worldAt env cs wd (i + 1) with
          errno := errnoAfter wd.errno (answerAt env cs wd i) }) := by
  simp [prFsioLstat, worldAt, answerAt, List.range_succ]

theorem walkState_world (i : Nat) : (walkState env cs wd i).world = worldAt env cs wd i := by
  cases i <;> simp [walkState]

theorem walkState_prevPath (i : Nat) : (walkState env cs wd i).prevPath = parentOf env cs i := by
  cases i <;> rfl

theorem walkState_explained (i : Nat) : (walkState env cs wd i).explained = none := by
  cases i <;> rfl

/-- Joining the next component to the path of the state gives `q_i`. -/
theorem walkState_join (i : Nat) :
    joinComponent env (walkState env cs wd i).path (cs.getD i []) = prefixAt env cs i := by
  cases i <;> rfl

variable {env errErrno flags nameMax noTrunc cs wd}

/-- An iteration before the halt goes on, one prefix further. -/
theorem walkBody_cont {i : Nat} (hi : i < cs.length)
    (h : ¬ Halts env errErrno nameMax noTrunc cs wd i) :
    walkBody env errErrno flags nameMax noTrunc cs.length i cs[i] (walkState env cs wd i) =
      .cont (walkState env cs wd (i + 1)) := by
  unfold Halts StopsAt at h
  rw [List.getD_eq_getElem _ _ hi] at h
  push Not at h
  obtain ⟨hlong, hok, hdir, hlast⟩ := h
  have hjoin := walkState_join env cs wd i
  rw [List.getD_eq_getElem _ _ hi] at hjoin
  unfold walkBody
  rw [if_neg (show ¬ (_ ∧ _ ∧ _) from hlong)]
  simp only [hjoin, walkState_world, prFsioLstat_worldAt, hlast, walkState_explained]
  cases hans : answerAt env cs wd i with
  | error e => exact absurd hans (hok e)
  | ok st =>
    have hty := hdir (by omega) st hans
    have hgo : ¬ (¬ sIslnk st.stMode ∧ ¬ sIsdir st.stMode) := by
      rintro ⟨hl, hd⟩
      exact hty (by simpa using hd) (by simpa using hl)
    simp only [not_false_eq_true, if_true, if_neg hgo, errnoAfter]
    rfl

variable (flags) in
/-- The body at the halt leaves the loop, or ends it, with `haltResult`. -/
theorem walkBody_halt {k : Nat} (hk : k < cs.length)
    (h : Halts env errErrno nameMax noTrunc cs wd k) :
    ∃ s : Walk, (s.explained, s.world) = haltResult env errErrno flags nameMax noTrunc cs wd k ∧
      (walkBody env errErrno flags nameMax noTrunc cs.length k cs[k] (walkState env cs wd k) = .brk s ∨
        k + 1 = cs.length ∧
          walkBody env errErrno flags nameMax noTrunc cs.length k cs[k] (walkState env cs wd k) =
            .cont s) := by
  have hjoin := walkState_join env cs wd k
  unfold Halts at h
  unfold walkBody haltResult
  rw [List.getD_eq_getElem _ _ hk] at h hjoin ⊢
  by_cases hlong : TooLong errErrno nameMax noTrunc cs[k]
  · rw [if_pos hlong, if_pos (show _ ∧ _ ∧ _ from hlong)]
    exact ⟨_, by rw [walkState_world], Or.inl rfl⟩
  rw [if_neg hlong, if_neg (show ¬ (_ ∧ _ ∧ _) from hlong)]
  simp only [hjoin, walkState_world, prFsioLstat_worldAt, walkState_explained, walkState_prevPath]
  rcases h.resolve_left hlong with ⟨e, he⟩ | ⟨hlt, st, hst, hd, hl⟩ | rfl
  · -- the lookup fails
    simp only [he, errnoAfter]
    by_cases hlast : k = cs.length - 1
    · simp only [hlast, not_true_eq_false, if_false, if_true]
      exact ⟨_, rfl, Or.inl rfl⟩
    · simp only [hlast, not_false_eq_true, if_false, if_true]
      exact ⟨_, rfl, Or.inl rfl⟩
  · -- a prefix that is neither a directory nor a symlink
    have hlast : k ≠ cs.length - 1 := by omega
    simp only [hst, hd, hl, errnoAfter, hlast, ne_eq, not_false_eq_true, Bool.false_eq_true, and_self,
      if_true]
    exact ⟨_, rfl, Or.inl rfl⟩
  · -- the leaf
    cases hans : answerAt env cs wd (cs.length - 1) with
    | error e =>
      simp only [not_true_eq_false, if_false, if_true]
      exact ⟨_, rfl, Or.inl rfl⟩
    | ok st =>
      simp only [not_true_eq_false, if_false, ne_eq, errnoAfter]
      by_cases herr : errErrno = .eacces
      · simp only [herr, if_true]
        exact ⟨_, rfl, Or.inr ⟨by omega, rfl⟩⟩
      · simp only [herr, if_false]
        exact ⟨_, rfl, Or.inr ⟨by omega, rfl⟩⟩

/-- **The walk.**  It ends at the least component it halts at. -/
theorem walk_eq_haltResult {k : Nat} (hk : k < cs.length)
    (hleast : IsLeast {i | Halts env errErrno nameMax noTrunc cs wd i} k) :
    let s := Loop.run (walkBody env errErrno flags nameMax noTrunc cs.length) 0 cs
      ⟨none, none, none, wd⟩
    (s.explained, s.world) = haltResult env errErrno flags nameMax noTrunc cs wd k := by
  obtain ⟨s, hs, hstop⟩ := walkBody_halt flags hk hleast.1
  have hrun := Loop.run_first (walkBody env errErrno flags nameMax noTrunc cs.length) cs
    (walkState env cs wd) k s hk (fun i hi => ?_) hstop
  · rw [← hs]
    exact congrArg (fun t : Walk => (t.explained, t.world)) hrun
  · exact walkBody_cont _ fun hh => absurd (hleast.2 hh) (by omega)

theorem haltResult_long {k : Nat} (h : TooLong errErrno nameMax noTrunc (cs.getD k [])) :
    haltResult env errErrno flags nameMax noTrunc cs wd k =
      (some (describeEnametoolongName env (cs.getD k []) (cs.getD k []).length nameMax.toNat flags),
        worldAt env cs wd k) :=
  if_pos h

section Short

variable {k : Nat} (hlong : ¬ TooLong errErrno nameMax noTrunc (cs.getD k []))
include hlong

theorem haltResult_error {e : Errno} (he : answerAt env cs wd k = .error e) :
    haltResult env errErrno flags nameMax noTrunc cs wd k =
      (if k = cs.length - 1 then describeFileLookup env (prefixAt env cs k) flags e
        else describeDirLookup env (prefixAt env cs k) flags e,
        { worldAt env cs wd (k + 1) with errno := e }) := by
  unfold haltResult
  rw [if_neg hlong]
  simp only [he]

theorem haltResult_notDir {st : Stat} (hst : answerAt env cs wd k = .ok st)
    (hk : k ≠ cs.length - 1) :
    haltResult env errErrno flags nameMax noTrunc cs wd k =
      (some (describeNotDir env (prefixAt env cs k)), worldAt env cs wd (k + 1)) := by
  unfold haltResult
  rw [if_neg hlong]
  simp only [hst, if_pos hk]

theorem haltResult_leaf {st : Stat} (hst : answerAt env cs wd k = .ok st)
    (hk : k = cs.length - 1) (herr : errErrno ≠ .eacces) :
    haltResult env errErrno flags nameMax noTrunc cs wd k = (none, worldAt env cs wd (k + 1)) := by
  unfold haltResult
  rw [if_neg hlong]
  simp only [hst, if_neg (not_not_intro hk), if_neg herr]

theorem haltResult_leaf_eacces {st : Stat} (hst : answerAt env cs wd k = .ok st)
    (hk : k = cs.length - 1) (herr : errErrno = .eacces) :
    haltResult env errErrno flags nameMax noTrunc cs wd k =
      (some (describeLeaf env (prefixAt env cs k) flags (parentOf env cs k)
        (env.lstat (wd.lstatCalls.length + (k + 1)) (parentOf env cs k))),
        (prFsioLstat env (parentOf env cs k) (worldAt env cs wd (k + 1))).2) := by
  unfold haltResult
  rw [if_neg hlong]
  simp only [hst, if_neg (not_not_intro hk), if_pos herr]
  simp [prFsioLstat, worldAt]

end Short

/-- Only the lookups made before count in the answers. -/
theorem answerAt_congr {wd' : World} (h : wd'.lstatCalls = wd.lstatCalls) :
    answerAt env cs wd' = answerAt env cs wd := by
  funext i
  unfold answerAt
  rw [h]

theorem halts_congr {wd' : World} (h : wd'.lstatCalls = wd.lstatCalls) (i : Nat) :
    Halts env errErrno nameMax noTrunc cs wd' i ↔ Halts env errErrno nameMax noTrunc cs wd i := by
  unfold Halts
  rw [answerAt_congr h]

variable (env errErrno nameMax noTrunc wd) in
/-- The last component halts, so there is a least one that does. -/
theorem exists_least_halt (hne : cs ≠ []) :
    ∃ k < cs.length, IsLeast {i | Halts env errErrno nameMax noTrunc cs wd i} k := by
  have hpos := List.length_pos_iff.2 hne
  have hlast : Halts env errErrno nameMax noTrunc cs wd (cs.length - 1) :=
    Or.inr (Or.inr (Or.inr rfl))
  classical
  refine ⟨Nat.find ⟨_, hlast⟩, ?_, Nat.find_spec ⟨_, hlast⟩, fun i hi => Nat.find_min' _ hi⟩
  exact Nat.lt_of_le_of_lt (Nat.find_min' _ hlast) (by omega)

end Walk

/-! ## The whole of `explain_path_error` -/

section PathError

variable (pf : Platform w) (fullPath : CStr) (wd : World)

/-- The world the loop begins in: the limits have been asked for. -/
def loopWorld : World :=
  (explainPlatformNoTrunc env pf (some fullPath)
    (explainPlatformNameMax env pf (some fullPath) wd).2).2

theorem loopWorld_lstatCalls : (loopWorld env pf fullPath wd).lstatCalls = wd.lstatCalls := by
  unfold loopWorld explainPlatformNoTrunc explainPlatformNameMax
  rw [platformSessLimit_lstatCalls, platformSessLimit_lstatCalls]

theorem pathSplit_ne_nil : pathSplit env fullPath ≠ [] := by
  unfold pathSplit
  dsimp only
  split <;> simp

theorem answerAt_loopWorld (cs : List CStr) :
    answerAt env cs (loopWorld env pf fullPath wd) = answerAt env cs wd :=
  answerAt_congr (loopWorld_lstatCalls env pf fullPath wd)

/-- `walkPath` is `haltResult` at the least component it halts at. -/
theorem walkPath_eq_haltResult (errErrno : Errno) (flags : UInt32) :
    let nameMax := sessLimit env pf.platformSessNameMax .nameMax fullPath
    let noTrunc := sessLimit env pf.platformSessNoTrunc .noTrunc fullPath
    let cs := pathSplit env fullPath
    let lw := loopWorld env pf fullPath wd
    ∃ k < cs.length, IsLeast {i | Halts env errErrno nameMax noTrunc cs lw i} k ∧
      walkPath env pf errErrno fullPath flags wd =
        haltResult env errErrno flags nameMax noTrunc cs lw k := by
  intro nameMax noTrunc cs lw
  have hne : cs ≠ [] := pathSplit_ne_nil env fullPath
  obtain ⟨k, hk, hleast⟩ := exists_least_halt env errErrno nameMax noTrunc lw hne
  refine ⟨k, hk, hleast, ?_⟩
  rw [← walk_eq_haltResult hk hleast]
  unfold walkPath explainPlatformNameMax explainPlatformNoTrunc
  simp only [platformSessLimit_value]
  rfl

end PathError

section Length

variable {env} {pf : Platform w} {errErrno : Errno} {fullPath : CStr}

theorem explainPathError_of_long (h : PathTooLong env pf errErrno fullPath) (p : Pool)
    (flags mode : UInt32) (wd : World) :
    (explainPathError env pf (some p) errErrno (some fullPath) flags mode wd).1 =
      some (describeEnametoolongPath env fullPath fullPath.length
        (sessLimit env pf.platformSessPathMax .pathMax fullPath).toNat flags) := by
  obtain ⟨herr, hlong⟩ := h
  unfold explainPathError explainPlatformPathMax
  simp only [platformSessLimit_value, if_pos herr, if_pos hlong]

theorem explainPathError_of_long_calls (h : PathTooLong env pf errErrno fullPath) (p : Pool)
    (flags mode : UInt32) (wd : World) :
    (explainPathError env pf (some p) errErrno (some fullPath) flags mode wd).2.lstatCalls =
      wd.lstatCalls := by
  obtain ⟨herr, hlong⟩ := h
  unfold explainPathError explainPlatformPathMax
  simp only [platformSessLimit_value, if_pos herr, if_pos hlong]
  exact platformSessLimit_lstatCalls _ _ _ _ _

/-- Any other path is walked. -/
theorem explainPathError_of_fits (h : ¬ PathTooLong env pf errErrno fullPath) (p : Pool)
    (flags mode : UInt32) (wd : World) :
    ∃ wd', wd'.lstatCalls = wd.lstatCalls ∧
      explainPathError env pf (some p) errErrno (some fullPath) flags mode wd =
        walkPath env pf errErrno fullPath flags wd' := by
  by_cases herr : errErrno = .enametoolong
  · have hshort : ¬ (0 < (sessLimit env pf.platformSessPathMax .pathMax fullPath).toNat ∧
        (sessLimit env pf.platformSessPathMax .pathMax fullPath).toNat < fullPath.length) :=
      fun hlong => h ⟨herr, hlong⟩
    refine ⟨(explainPlatformPathMax env pf (some fullPath) wd).2,
      platformSessLimit_lstatCalls _ _ _ _ _, ?_⟩
    unfold explainPathError explainPlatformPathMax
    simp only [platformSessLimit_value, if_pos herr, if_neg hshort]
  · exact ⟨wd, rfl, if_neg herr⟩

/-- What is made of a path that fits: the result of its least halt. -/
theorem explainPathError_eq_of_fits (h : ¬ PathTooLong env pf errErrno fullPath) (p : Pool)
    (flags mode : UInt32) (wd : World) :
    let nameMax := sessLimit env pf.platformSessNameMax .nameMax fullPath
    let noTrunc := sessLimit env pf.platformSessNoTrunc .noTrunc fullPath
    let cs := pathSplit env fullPath
    ∃ k < cs.length, IsLeast {i | Halts env errErrno nameMax noTrunc cs wd i} k ∧
      ∃ lw, lw.lstatCalls = wd.lstatCalls ∧
        explainPathError env pf (some p) errErrno (some fullPath) flags mode wd =
          haltResult env errErrno flags nameMax noTrunc cs lw k := by
  intro nameMax noTrunc cs
  obtain ⟨wd', hwd, hwalk⟩ := explainPathError_of_fits h p flags mode wd
  obtain ⟨k, hk, hleast, hres⟩ := walkPath_eq_haltResult env pf fullPath wd' errErrno flags
  have hlw : (loopWorld env pf fullPath wd').lstatCalls = wd.lstatCalls := by
    rw [loopWorld_lstatCalls, hwd]
  refine ⟨k, hk, ⟨(halts_congr hlw k).1 hleast.1, fun i hi => ?_⟩, _, hlw, by rw [hwalk, hres]⟩
  exact hleast.2 ((halts_congr hlw i).2 hi)

theorem not_tooLong (herr : errErrno ≠ .enametoolong) {nameMax noTrunc : Long w} {component : CStr} :
    ¬ TooLong errErrno nameMax noTrunc component := fun h => herr h.1

/-- Without an ENAMETOOLONG no length matters, and the answers decide where the
walk halts. -/
theorem explainPathError_eq_haltResult (herr : errErrno ≠ .enametoolong) (p : Pool)
    (flags mode : UInt32) (wd : World) :
    let cs := pathSplit env fullPath
    ∃ k < cs.length, IsLeast {i | StopsAt cs.length (answerAt env cs wd) i} k ∧
      explainPathError env pf (some p) errErrno (some fullPath) flags mode wd =
        haltResult env errErrno flags (sessLimit env pf.platformSessNameMax .nameMax fullPath)
          (sessLimit env pf.platformSessNoTrunc .noTrunc fullPath) cs (loopWorld env pf fullPath wd)
          k := by
  intro cs
  obtain ⟨k, hk, hleast, hwalk⟩ := walkPath_eq_haltResult env pf fullPath wd errErrno flags
  refine ⟨k, hk, ?_, ?_⟩
  · unfold Halts at hleast
    rw [answerAt_loopWorld] at hleast
    simpa only [not_tooLong herr, false_or] using hleast
  · rw [← hwalk]
    exact if_neg herr

end Length

/-! ## The first-failure law -/

/-- The explanation when the walk of `n` components ends at `k` with the answer
`ans` for `path`; `parentAns` answers the lookup of the parent directory. -/
def firstFailureText (flags : UInt32) (errErrno : Errno) (n k : Nat) (path parent : CStr)
    (ans parentAns : Except Errno Stat) : Option CStr :=
  match ans with
  | .error .enoent =>
    some ((if k < n - 1 then lit "directory '" else lit "file '") ++ path ++ lit "' does not exist")
  | .error .eacces =>
    if k < n - 1 then some (lit "directory '" ++ path ++ lit "' is not searchable by the user")
    else some (eaccesLeafText flags path)
  | .error _ => none
  | .ok _ =>
    if k < n - 1 then some (lit "path '" ++ path ++ lit "' does not refer to a directory")
    else if errErrno = .eacces then
      some (eaccesLeafText flags path ++
        match parentAns with
        | .ok st => lit "; parent directory '" ++ parent ++ lit "' has perms " ++ mode2s st.stMode ++
            lit ", and is owned by UID " ++ env.prUid2str st.stUid ++ lit ", GID " ++
            env.prGid2str st.stGid
        | .error _ => [])
    else none

section Halt

variable {env} {errErrno : Errno} {flags : UInt32} {nameMax noTrunc : Long w} {cs : List CStr}
  {wd : World} {k : Nat} (hlong : ¬ TooLong errErrno nameMax noTrunc (cs.getD k []))
  (hn : 2 ≤ cs.length) (hk : k < cs.length)

theorem parentOf_last (hn : 2 ≤ cs.length) :
    parentOf env cs (cs.length - 1) = some (prefixAt env cs (cs.length - 2)) := by
  obtain ⟨m, hm⟩ : ∃ m, cs.length = m + 2 := ⟨cs.length - 2, by omega⟩
  rw [hm]
  rfl

include hlong

/-- The lookups made: those of the prefixes, and one more of the parent of a leaf
that EACCES is blamed on. -/
theorem haltResult_lookups :
    (haltResult env errErrno flags nameMax noTrunc cs wd k).2.lstatCalls =
      wd.lstatCalls ++ (List.range (k + 1)).map (fun i => some (prefixAt env cs i)) ++
        (if k = cs.length - 1 ∧ (answerAt env cs wd k).isOk ∧ errErrno = .eacces then
          [parentOf env cs k] else []) := by
  cases hans : answerAt env cs wd k with
  | error e =>
    rw [haltResult_error hlong hans]
    simp [worldAt, Except.isOk, Except.toBool]
  | ok st =>
    by_cases hlast : k = cs.length - 1
    · by_cases hacc : errErrno = .eacces
      · rw [haltResult_leaf_eacces hlong hans hlast hacc, if_pos ⟨hlast, rfl, hacc⟩]
        rfl
      · rw [haltResult_leaf hlong hans hlast hacc]
        simp [worldAt, hacc]
    · rw [haltResult_notDir hlong hans hlast]
      simp [worldAt, hlast]

include hn

include hk in
theorem haltResult_text :
    (haltResult env errErrno flags nameMax noTrunc cs wd k).1 =
      firstFailureText env flags errErrno cs.length k (prefixAt env cs k)
        (prefixAt env cs (cs.length - 2)) (answerAt env cs wd k)
        (env.lstat (wd.lstatCalls.length + cs.length) (some (prefixAt env cs (cs.length - 2)))) := by
  cases hans : answerAt env cs wd k with
  | error e =>
    rw [haltResult_error hlong hans]
    by_cases hlast : k = cs.length - 1
    · have : ¬ k < cs.length - 1 := by omega
      cases e <;> simp [describeFileLookup, firstFailureText, hlast]
    · have : k < cs.length - 1 := by omega
      cases e <;> simp [describeDirLookup, firstFailureText, this, hlast]
  | ok st =>
    by_cases hlast : k = cs.length - 1
    · have hlt : ¬ k < cs.length - 1 := by omega
      by_cases hacc : errErrno = .eacces
      · have hk1 : k + 1 = cs.length := by omega
        rw [haltResult_leaf_eacces hlong hans hlast hacc, hk1, hlast, parentOf_last hn]
        simp only [firstFailureText, lt_irrefl, if_false, hacc, if_true]
        cases env.lstat (wd.lstatCalls.length + cs.length)
          (some (prefixAt env cs (cs.length - 2))) <;> simp [describeLeaf]
      · rw [haltResult_leaf hlong hans hlast hacc]
        simp [firstFailureText, hacc, hlt]
    · have hlt : k < cs.length - 1 := by omega
      rw [haltResult_notDir hlong hans hlast]
      simp [firstFailureText, hlt]

theorem haltResult_calls :
    (haltResult env errErrno flags nameMax noTrunc cs wd k).2.lstatCalls =
      wd.lstatCalls ++ (List.range (k + 1)).map (fun i => some (prefixAt env cs i)) ++
        (if k = cs.length - 1 ∧ (answerAt env cs wd k).isOk ∧ errErrno = .eacces then
          [some (prefixAt env cs (cs.length - 2))] else []) := by
  rw [haltResult_lookups hlong]
  by_cases hlast : k = cs.length - 1
  · rw [hlast, parentOf_last hn]
  · simp [hlast]

end Halt

variable {env} in
/-- The lookups made of a path that fits, when the walk halts at `k`. -/
theorem explainPathError_lookups {pf : Platform w} {errErrno : Errno} {fullPath : CStr}
    (h : ¬ PathTooLong env pf errErrno fullPath) (p : Pool) (flags mode : UInt32) (wd : World) :
    let nameMax := sessLimit env pf.platformSessNameMax .nameMax fullPath
    let noTrunc := sessLimit env pf.platformSessNoTrunc .noTrunc fullPath
    let cs := pathSplit env fullPath
    let r := explainPathError env pf (some p) errErrno (some fullPath) flags mode wd
    ∃ k < cs.length, IsLeast {i | Halts env errErrno nameMax noTrunc cs wd i} k ∧
      (TooLong errErrno nameMax noTrunc (cs.getD k []) →
        r.2.lstatCalls = wd.lstatCalls ++ (List.range k).map fun i => some (prefixAt env cs i)) ∧
      (¬ TooLong errErrno nameMax noTrunc (cs.getD k []) →
        r.2.lstatCalls = wd.lstatCalls ++ ((List.range (k + 1)).map (fun i => some (prefixAt env cs i)) ++
          if k = cs.length - 1 ∧ (answerAt env cs wd k).isOk ∧ errErrno = .eacces then
            [parentOf env cs k] else [])) ∧
      (k = cs.length - 1 → (answerAt env cs wd k).isOk → errErrno = .eacces →
        r.1 = some (describeLeaf env (prefixAt env cs k) flags (parentOf env cs k)
          (env.lstat (wd.lstatCalls.length + (k + 1)) (parentOf env cs k)))) := by
  intro nameMax noTrunc cs r
  obtain ⟨k, hk, hleast, lw, hlw, hr⟩ := explainPathError_eq_of_fits h p flags mode wd
  have hans : answerAt env cs lw k = answerAt env cs wd k := by
    unfold answerAt
    rw [hlw]
  refine ⟨k, hk, hleast, fun hlong => ?_, fun hlong => ?_, fun hlast hok hacc => ?_⟩
  · show (explainPathError env pf (some p) errErrno (some fullPath) flags mode wd).2.lstatCalls = _
    rw [hr, haltResult_long hlong]
    simp only [worldAt, hlw]
  · show (explainPathError env pf (some p) errErrno (some fullPath) flags mode wd).2.lstatCalls = _
    rw [hr, haltResult_lookups hlong, hans, hlw, List.append_assoc]
  · show (explainPathError env pf (some p) errErrno (some fullPath) flags mode wd).1 = _
    cases hst : answerAt env cs wd k with
    | error e =>
      rw [hst] at hok
      cases hok
    | ok st =>
      rw [hr, haltResult_leaf_eacces (not_tooLong (by rw [hacc]; decide)) (hans.trans hst) hlast hacc,
        hlw]

/-- **First failure.**  The walk looks up `q_0, …, q_k` for the least `k` it
stops at, and the parent of a leaf that exists when the error is EACCES; the
explanation is the one for `q_k`. -/
theorem explainPathError_first_failure (pf : Platform w) (p : Pool) (errErrno : Errno)
    (fullPath : CStr) (flags mode : UInt32) (wd : World) (herr : errErrno ≠ .enametoolong)
    (hn : 2 ≤ (pathSplit env fullPath).length) :
    let cs := pathSplit env fullPath
    let n := cs.length
    let q := prefixAt env cs
    let ans := answerAt env cs wd
    let r := explainPathError env pf (some p) errErrno (some fullPath) flags mode wd
    ∃ k, IsLeast {i | StopsAt n ans i} k ∧
      r.2.lstatCalls = wd.lstatCalls ++ (List.range (k + 1)).map (fun i => some (q i)) ++
        (if k = n - 1 ∧ (ans k).isOk ∧ errErrno = .eacces then [some (q (n - 2))] else []) ∧
      r.1 = firstFailureText env flags errErrno n k (q k) (q (n - 2)) (ans k)
        (env.lstat (wd.lstatCalls.length + n) (some (q (n - 2)))) := by
  intro cs n q ans r
  obtain ⟨k, hk, hleast, hr⟩ := @explainPathError_eq_haltResult w env pf errErrno fullPath herr p
    flags mode wd
  have hshort : ∀ {nameMax noTrunc : Long w}, ¬ TooLong errErrno nameMax noTrunc (cs.getD k []) :=
    not_tooLong herr
  refine ⟨k, hleast, ?_, ?_⟩
  · show (explainPathError env pf (some p) errErrno (some fullPath) flags mode wd).2.lstatCalls = _
    rw [hr, haltResult_calls hshort hn, answerAt_loopWorld, loopWorld_lstatCalls]
  · show (explainPathError env pf (some p) errErrno (some fullPath) flags mode wd).1 = _
    rw [hr, haltResult_text hshort hn hk, answerAt_loopWorld, loopWorld_lstatCalls]

/-- Every lookup finds a directory. -/
def openHost : Env 64 := { bareHost with lstat := fun _ _ => .ok ⟨sIfdir ||| 0o755, 0, 0⟩ }

/-- The walk of `/a/b` finds all three prefixes, and looks up the parent. -/
theorem explainPathError_first_failure_openHost :
    let r := explainPathError openHost .initial (some ⟨0⟩) .eacces (some (lit "/a/b"))
      explainPathFlWantSearch sIfreg .start
    r.2.lstatCalls = [some (lit "/"), some (lit "/a"), some (lit "/a/b"), some (lit "/a")] ∧
      r.1 = some (lit "file '/a/b' is not searchable by the user" ++
        lit "; parent directory '/a' has perms 0755, and is owned by UID 0, GID 0") := by
  intro r
  obtain ⟨k, hleast, hcalls, htext⟩ := explainPathError_first_failure openHost .initial ⟨0⟩ .eacces
    (lit "/a/b") explainPathFlWantSearch sIfreg .start (by decide) (by decide)
  have hle : k ≤ 2 := hleast.2 (Or.inr (Or.inr rfl))
  have hge : 2 ≤ k := by
    rcases hleast.1 with ⟨e, he⟩ | ⟨-, st, hst, hdir, -⟩ | hend
    · cases he
    · cases hst
      exact absurd hdir (by decide)
    · exact hend.ge
  obtain rfl : k = 2 := by omega
  exact ⟨hcalls.trans (by decide), htext.trans (by decide)⟩

end Explain
