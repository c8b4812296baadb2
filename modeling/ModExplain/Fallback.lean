import ModExplain.WalkLaw

/-!
# Which errors are left without an explanation

The explainers hand some errors to the walk and return what it returns, NULL
included.  The walk has a text at the component it halts at when that component
is over-long, when its lookup failed with ENOENT or EACCES, when it is no
directory, or when it is a leaf that EACCES can be blamed on; every other end
of the walk leaves the error unexplained (`explained_iff_hasExplanation`).
-/

namespace Explain

variable {w : Nat} {env : Env w}

/-- The answer for component `k` of `n` has a text of its own. -/
def HasText (errErrno : Errno) (n k : Nat) : Except Errno Stat → Prop
  | .error e => e = .enoent ∨ e = .eacces
  | .ok _ => k < n - 1 ∨ errErrno = .eacces

/-- The first component the walk goes no further than is over-long, or is one
whose answer has a text. -/
def FirstHaltHasText (env : Env w) (pf : Platform w) (errErrno : Errno) (path : CStr) (wd : World) :
    Prop :=
  let nameMax := sessLimit env pf.platformSessNameMax .nameMax path
  let noTrunc := sessLimit env pf.platformSessNoTrunc .noTrunc path
  let cs := pathSplit env path
  ∃ k, IsLeast {i | Halts env errErrno nameMax noTrunc cs wd i} k ∧
    (TooLong errErrno nameMax noTrunc (cs.getD k []) ∨
      HasText errErrno cs.length k (answerAt env cs wd k))

/-- The error is none the walk is asked about, or the path accounts for it. -/
def HasExplanation (env : Env w) (pf : Platform w) (call : Explainer) (xerrno : Errno) (path : CStr)
    (wd : World) : Prop :=
  call.walks env.getuid xerrno = false ∨ PathTooLong env pf xerrno path ∨
    FirstHaltHasText env pf xerrno path wd

section HaltText

variable {errErrno : Errno} {flags : UInt32} {nameMax noTrunc : Long w} {cs : List CStr} {wd : World}
  {k : Nat}

theorem describeDirLookup_isSome_iff (path : CStr) (e : Errno) :
    (∃ text, describeDirLookup env path flags e = some text) ↔ e = .enoent ∨ e = .eacces := by
  cases e <;> simp [describeDirLookup]

theorem describeFileLookup_isSome_iff (path : CStr) (e : Errno) :
    (∃ text, describeFileLookup env path flags e = some text) ↔ e = .enoent ∨ e = .eacces := by
  cases e <;> simp [describeFileLookup]

/-- The walk that halts at `k` has a text exactly when `k` accounts for one. -/
theorem haltResult_isSome_iff (hk : k < cs.length) :
    (∃ text, (haltResult env errErrno flags nameMax noTrunc cs wd k).1 = some text) ↔
      TooLong errErrno nameMax noTrunc (cs.getD k []) ∨
        HasText errErrno cs.length k (answerAt env cs wd k) := by
  by_cases hlong : TooLong errErrno nameMax noTrunc (cs.getD k [])
  · rw [haltResult_long hlong]
    exact ⟨fun _ => Or.inl hlong, fun _ => ⟨_, rfl⟩⟩
  rw [or_iff_right hlong]
  cases hans : answerAt env cs wd k with
  | error e =>
    rw [haltResult_error hlong hans]
    by_cases hlast : k = cs.length - 1
    · rw [if_pos hlast]
      exact describeFileLookup_isSome_iff _ e
    · rw [if_neg hlast]
      exact describeDirLookup_isSome_iff _ e
  | ok st =>
    by_cases hlast : k = cs.length - 1
    · have hlt : ¬ k < cs.length - 1 := by omega
      by_cases hacc : errErrno = .eacces
      · rw [haltResult_leaf_eacces hlong hans hlast hacc]
        exact ⟨fun _ => Or.inr hacc, fun _ => ⟨_, rfl⟩⟩
      · rw [haltResult_leaf hlong hans hlast hacc]
        simp [HasText, hlt, hacc]
    · rw [haltResult_notDir hlong hans hlast]
      exact ⟨fun _ => Or.inl (by omega), fun _ => ⟨_, rfl⟩⟩

end HaltText

/-- `explain_path_error` has a text for an over-long path, and otherwise when
its walk has one. -/
theorem explainPathError_isSome_iff (pf : Platform w) (p : Pool) (errErrno : Errno) (path : CStr)
    (flags mode : UInt32) (wd : World) :
    (∃ text, (explainPathError env pf (some p) errErrno (some path) flags mode wd).1 = some text) ↔
      PathTooLong env pf errErrno path ∨ FirstHaltHasText env pf errErrno path wd := by
  by_cases hlong : PathTooLong env pf errErrno path
  · rw [explainPathError_of_long hlong]
    exact ⟨fun _ => Or.inl hlong, fun _ => ⟨_, rfl⟩⟩
  rw [or_iff_right hlong]
  obtain ⟨k, hk, hleast, lw, hcalls, hres⟩ := explainPathError_eq_of_fits hlong p flags mode wd
  have hans : answerAt env (pathSplit env path) lw = answerAt env (pathSplit env path) wd :=
    answerAt_congr hcalls
  rw [hres, haltResult_isSome_iff hk, hans]
  constructor
  · intro h
    exact ⟨k, hleast, h⟩
  · rintro ⟨k', hleast', h⟩
    have hkk : k' = k := hleast'.unique hleast
    exact hkk ▸ h

/-- **Unexplained errors.**  An explainer returns a text exactly when the error
is none of those it hands to the walk, or the path accounts for it. -/
theorem explained_iff_hasExplanation (call : Explainer) (pf : Platform w) (p : Pool) {xerrno : Errno}
    (hne : xerrno ≠ .zero) (path : CStr) (wd : World) :
    (∃ text, (call.explain env pf p xerrno (some path) wd).explained = some text) ↔
      HasExplanation env pf call xerrno path wd := by
  unfold HasExplanation
  cases hwalks : call.walks env.getuid xerrno with
  | false =>
    refine ⟨fun _ => Or.inl rfl, fun _ => ?_⟩
    exact Explainer.explain_of_not_walks hwalks hne pf p (some path) wd
  | true =>
    rw [Explainer.explained_of_walks hwalks, explainPathError_isSome_iff]
    exact (or_iff_right (by simp)).symm

/-- A host on which every path is a directory. -/
def dirHost : Env 64 := { bareHost with lstat := fun _ _ => .ok ⟨sIfdir, 0, 0⟩ }

/-- An `unlink` of `/a` that was not permitted: the walk finds `/a` and has
nothing to say. -/
theorem explained_unlink_dirHost :
    (Explainer.unlink.explain dirHost .initial ⟨0⟩ .eperm (some (lit "/a")) .start).explained =
      none := by
  decide

theorem explained_iff_hasExplanation_dirHost :
    ¬ HasExplanation dirHost .initial .unlink .eperm (lit "/a") .start := by
  intro h
  obtain ⟨text, htext⟩ :=
    (explained_iff_hasExplanation .unlink .initial ⟨0⟩ (by decide) (lit "/a") .start).2 h
  rw [explained_unlink_dirHost] at htext
  cases htext

/-- Errors do go unexplained. -/
theorem unlink_eperm_unexplained :
    ¬ ∀ (env : Env 64) (call : Explainer) (pf : Platform 64) (p : Pool) (xerrno : Errno) (path : CStr)
      (wd : World), xerrno ≠ .zero →
      ∃ text, (call.explain env pf p xerrno (some path) wd).explained = some text := by
  intro h
  obtain ⟨text, htext⟩ := h dirHost .unlink .initial ⟨0⟩ .eperm (lit "/a") .start (by decide)
  rw [explained_unlink_dirHost] at htext
  cases htext

end Explain
