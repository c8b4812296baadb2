import ModExplain.Explainers
import ModExplain.PathSplit

/-!
# Two runs that differ in the unwritten argument slots

A `pstrcat` whose arguments include a NULL never reaches the slots after them.
All calls but the one of `describe_nonroot_eperm` are such, so two runs of an
explainer can differ only where that one is made (`explain_slots_iff`).
-/

namespace Explain

variable {w : Nat} {env : Env w}

/-- The same environment with other bytes left in the argument slots. -/
def withSlots (env : Env w) (slots : List (Option CStr) → List (Option CStr)) : Env w :=
  { env with slots }

theorem catArgs_append_of_mem {args : List (Option CStr)} (h : none ∈ args)
    (rest : List (Option CStr)) : catArgs (args ++ rest) = catArgs args := by
  induction args with
  | nil => cases h
  | cons a args ih =>
    cases a with
    | none => rfl
    | some s =>
      have hmem : none ∈ args := by simpa using h
      simp only [List.cons_append, catArgs_some, ih hmem]

section Slots

variable (s : List (Option CStr) → List (Option CStr))

/-- A NULL among the arguments hides the slots. -/
theorem pstrcat_slots {args : List (Option CStr)} (h : none ∈ args) :
    pstrcat (withSlots env s) args = pstrcat env args := by
  unfold pstrcat
  rw [catArgs_append_of_mem h, catArgs_append_of_mem h]

/-! ## The walk -/

theorem describeDirLookup_slots (path : CStr) (flags : UInt32) (e : Errno) :
    describeDirLookup (withSlots env s) path flags e = describeDirLookup env path flags e := by
  cases e with
  | enoent => exact congrArg some (pstrcat_slots s (by simp))
  | eacces => exact congrArg some (pstrcat_slots s (by simp))
  | _ => rfl

theorem describeEaccesFile_slots (path : CStr) (flags : UInt32) :
    describeEaccesFile (withSlots env s) path flags = describeEaccesFile env path flags := by
  unfold describeEaccesFile
  rw [pstrcat_slots s (by simp), pstrcat_slots s (by simp)]

theorem describeFileLookup_slots (path : CStr) (flags : UInt32) (e : Errno) :
    describeFileLookup (withSlots env s) path flags e = describeFileLookup env path flags e := by
  cases e with
  | enoent => exact congrArg some (pstrcat_slots s (by simp))
  | eacces => exact congrArg some (describeEaccesFile_slots s path flags)
  | _ => rfl

theorem describeParent_slots (explained : CStr) (prevPath : Option CStr) (st : Stat) :
    describeParent (withSlots env s) explained prevPath st =
      describeParent env explained prevPath st :=
  pstrcat_slots s (by simp)

theorem describeLeaf_slots (path : CStr) (flags : UInt32) (prevPath : Option CStr)
    (res : Except Errno Stat) :
    describeLeaf (withSlots env s) path flags prevPath res =
      describeLeaf env path flags prevPath res := by
  cases res with
  | error e => exact describeEaccesFile_slots s path flags
  | ok st =>
    show describeParent _ _ prevPath st = describeParent _ _ prevPath st
    rw [describeEaccesFile_slots, describeParent_slots]

theorem describeEnametoolongName_slots (name : CStr) (len max : Nat) (flags : UInt32) :
    describeEnametoolongName (withSlots env s) name len max flags =
      describeEnametoolongName env name len max flags :=
  pstrcat_slots s (by simp)

theorem describeEnametoolongPath_slots (path : CStr) (len max : Nat) (flags : UInt32) :
    describeEnametoolongPath (withSlots env s) path len max flags =
      describeEnametoolongPath env path len max flags :=
  pstrcat_slots s (by simp)

theorem describeNotDir_slots (path : CStr) :
    describeNotDir (withSlots env s) path = describeNotDir env path :=
  pstrcat_slots s (by simp)

/-- No iteration reads the slots. -/
theorem walkBody_slots (errErrno : Errno) (flags : UInt32) (nameMax noTrunc : Long w) (nelts : Nat) :
    walkBody (withSlots env s) errErrno flags nameMax noTrunc nelts =
      walkBody env errErrno flags nameMax noTrunc nelts := by
  funext i component st
  unfold walkBody
  simp only [describeEnametoolongName_slots, describeDirLookup_slots, describeFileLookup_slots,
    describeNotDir_slots, describeLeaf_slots]
  rfl

theorem walkPath_slots (pf : Platform w) (errErrno : Errno) (path : CStr) (flags : UInt32)
    (wd : World) :
    walkPath (withSlots env s) pf errErrno path flags wd =
      walkPath env pf errErrno path flags wd := by
  unfold walkPath
  simp only [walkBody_slots]
  rfl

theorem explainPathError_slots (pf : Platform w) (p : Option Pool) (errErrno : Errno)
    (path : Option CStr) (flags mode : UInt32) (wd : World) :
    explainPathError (withSlots env s) pf p errErrno path flags mode wd =
      explainPathError env pf p errErrno path flags mode wd := by
  unfold explainPathError
  simp only [walkPath_slots, describeEnametoolongPath_slots]
  rfl

/-! ## The other descriptions -/

theorem explainDescribeGeneric_slots (p : Pool) (xerrno : Errno) (syscall : CStr) (wd : World) :
    explainDescribeGeneric (withSlots env s) (some p) xerrno (some syscall) wd =
      explainDescribeGeneric env (some p) xerrno (some syscall) wd := by
  have hcat : ∀ before after : CStr,
      pstrcat (withSlots env s) [some before, some syscall, some after, none] =
        pstrcat env [some before, some syscall, some after, none] :=
    fun _ _ => pstrcat_slots s (by simp)
  cases xerrno <;>
    simp only [explainDescribeGeneric, describeEagain, describeEintr, describeEfault,
      describeEnomem, describeEperm, describeGeneric, hcat]

theorem getArgs_slots (path : Option CStr) : getArgs (withSlots env s) path = getArgs env path :=
  pstrcat_slots s (by simp)

theorem describeKernelEnomem_slots (syscall : CStr) :
    describeKernelEnomem (withSlots env s) syscall = describeKernelEnomem env syscall :=
  pstrcat_slots s (by simp)

/-- The one call without a sentinel. -/
def ReadsSlots (env : Env w) (call : Explainer) (xerrno : Errno) : Prop :=
  call = .chroot ∧ xerrno = .eperm ∧ env.getuid ≠ prRootUid

theorem explainPathCall_slots (syscall : CStr) (flags : UInt32) (pf : Platform w) (p : Pool)
    (xerrno : Errno) (path : Option CStr) (wd : World) :
    explainPathCall (withSlots env s) syscall flags pf p xerrno path wd =
      explainPathCall env syscall flags pf p xerrno path wd := by
  unfold explainPathCall
  simp only [explainPathError_slots, explainDescribeGeneric_slots, getArgs_slots]

theorem explainChrootError_slots {xerrno : Errno}
    (h : ¬ (xerrno = .eperm ∧ env.getuid ≠ prRootUid)) (pf : Platform w) (p : Pool)
    (path : Option CStr) (wd : World) :
    explainChrootError (withSlots env s) pf p xerrno path wd =
      explainChrootError env pf p xerrno path wd := by
  cases xerrno with
  | eperm =>
    have huid : ¬ env.getuid ≠ prRootUid := fun hu => h ⟨rfl, hu⟩
    have huid' : ¬ (withSlots env s).getuid ≠ prRootUid := huid
    unfold explainChrootError
    simp only [if_neg huid, if_neg huid', explainPathError_slots, getArgs_slots]
  | _ =>
    simp only [explainChrootError, explainPathError_slots, explainDescribeGeneric_slots,
      getArgs_slots, describeKernelEnomem_slots]

/-- An explainer that does not make that call does not read the slots. -/
theorem explain_slots {call : Explainer} {xerrno : Errno} (h : ¬ ReadsSlots env call xerrno)
    (pf : Platform w) (p : Pool) (path : Option CStr) (wd : World) :
    call.explain (withSlots env s) pf p xerrno path wd = call.explain env pf p xerrno path wd := by
  cases call with
  | chroot => exact explainChrootError_slots s (fun hx => h ⟨rfl, hx⟩) pf p path wd
  | _ => exact explainPathCall_slots s _ _ pf p xerrno path wd

end Slots

/-- **Sentinels.**  Whatever lies in the slots, two runs agree, unless a user
other than root has the EPERM of a `chroot` explained. -/
theorem explain_slots_iff (env : Env w) (call : Explainer) (pf : Platform w) (p : Pool)
    (xerrno : Errno) (path : CStr) (wd : World) :
    (∀ s₁ s₂,
      let r₁ := call.explain (withSlots env s₁) pf p xerrno (some path) wd
      let r₂ := call.explain (withSlots env s₂) pf p xerrno (some path) wd
      r₁.explained = r₂.explained ∧ r₁.args = r₂.args) ↔ ¬ ReadsSlots env call xerrno := by
  constructor
  · rintro hsame ⟨rfl, rfl, huid⟩
    -- nothing follows the text, or one more byte does
    have hdiff := (hsame (fun _ => []) (fun _ => [some [dot]])).1
    have htext : ∀ s : List (Option CStr) → List (Option CStr),
        (Explainer.chroot.explain (withSlots env s) pf p .eperm (some path) wd).explained =
          some (describeNonrootEperm (withSlots env s) (lit "chroot(2)")) := by
      intro s
      show (explainChrootError (withSlots env s) pf p .eperm (some path) wd).explained = _
      unfold explainChrootError
      have huid' : (withSlots env s).getuid ≠ prRootUid := huid
      simp only [if_pos huid']
    rw [htext, htext, Option.some.injEq] at hdiff
    have hlen := congrArg List.length hdiff
    simp [describeNonrootEperm, pstrcat, withSlots, catArgs] at hlen
  · intro h s₁ s₂
    dsimp only
    rw [explain_slots s₁ h, explain_slots s₂ h]
    exact ⟨rfl, rfl⟩

/-- Two runs of the chroot explainer on `bareHost` that do not agree. -/
theorem chroot_eperm_reads_slots :
    ¬ ∀ (env : Env 64) (call : Explainer) (pf : Platform 64) (p : Pool) (xerrno : Errno) (path : CStr)
      (wd : World) (s₁ s₂ : List (Option CStr) → List (Option CStr)),
      (call.explain (withSlots env s₁) pf p xerrno (some path) wd).explained =
        (call.explain (withSlots env s₂) pf p xerrno (some path) wd).explained := by
  intro h
  have hsame := h bareHost .chroot .initial ⟨0⟩ .eperm (lit "/") .start (fun _ => [none])
    (fun _ => [some (lit "left over"), none])
  exact absurd hsame (by decide)

end Explain
