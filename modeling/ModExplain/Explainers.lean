import ModExplain.Path

/-!
# `chroot.c`, `lstat.c`, `stat.c`, `unlink.c`: one explainer per system call

The last three differ in the call's name and the flags only (`explainPathCall`);
`explainChrootError` has cases of its own.
-/

namespace Explain

variable {w : Nat} (env : Env w)

/-- What an explainer returns, stores through `args` and leaves behind. -/
structure Explanation where
  explained : Option CStr
  args : CStr
  world : World
deriving DecidableEq

/-- The same in all four files; a NULL path ends the concatenation. -/
def getArgs (path : Option CStr) : CStr :=
  pstrcat env [some (lit "path = '"), path, some (lit "'"), none]

/-! ## chroot(2) -/

def prRootUid : UInt32 := 0

def describeKernelEnomem (syscall : CStr) : CStr :=
  pstrcat env [some (lit "there was not enough kernel memory available for "), some syscall,
    some (lit " to succeed"), none]

/-- No NULL closes this call's arguments. -/
def describeNonrootEperm (_syscall : CStr) : CStr :=
  pstrcat env [some (lit
    "the process does not have permission to change its root directory due to lack of root privileges")]

/-- `EPERM` falls through to the path cases for root. -/
def explainChrootError (pf : Platform w) (p : Pool) (xerrno : Errno) (path : Option CStr)
    (wd : World) : Explanation :=
  let syscall := lit "chroot(2)"
  let pathFlags := explainPathFlWantSearch ||| explainPathFlMustHaveMode
  let args := getArgs env path
  let byPath :=
    let r := explainPathError env pf (some p) xerrno path pathFlags sIfdir wd
    { explained := r.1, args, world := r.2 }
  match xerrno with
  | .eperm =>
    if env.getuid ≠ prRootUid then
      { explained := some (describeNonrootEperm env syscall), args, world := wd }
    else byPath
  | .eacces | .enoent | .eloop | .enametoolong | .enotdir => byPath
  | .enomem => { explained := some (describeKernelEnomem env syscall), args, world := wd }
  | _ =>
    let r := explainDescribeGeneric env (some p) xerrno (some syscall) wd
    { explained := r.1, args, world := r.2 }

/-! ## lstat(2), stat(2), unlink(2) -/

def explainPathCall (syscall : CStr) (pathFlags : UInt32) (pf : Platform w) (p : Pool)
    (xerrno : Errno) (path : Option CStr) (wd : World) : Explanation :=
  let args := getArgs env path
  match xerrno with
  | .eacces | .enoent | .eloop | .enametoolong | .eperm =>
    let r := explainPathError env pf (some p) xerrno path pathFlags sIfreg wd
    { explained := r.1, args, world := r.2 }
  | _ =>
    let r := explainDescribeGeneric env (some p) xerrno (some syscall) wd
    { explained := r.1, args, world := r.2 }

def explainLstatError : Platform w → Pool → Errno → Option CStr → World → Explanation :=
  explainPathCall env (lit "lstat(2)") (explainPathFlWantSearch ||| explainPathFlMustHaveMode)

def explainStatError : Platform w → Pool → Errno → Option CStr → World → Explanation :=
  explainPathCall env (lit "stat(2)") (explainPathFlWantSearch ||| explainPathFlMustHaveMode)

def explainUnlinkError : Platform w → Pool → Errno → Option CStr → World → Explanation :=
  explainPathCall env (lit "unlink(2)") explainPathFlWantUnlink

/-- The explainers by the call they explain. -/
inductive Explainer where
  | chroot
  | lstat
  | stat
  | unlink
deriving DecidableEq, Repr

def Explainer.explain : Explainer → Platform w → Pool → Errno → Option CStr → World → Explanation
  | .chroot => explainChrootError env
  | .lstat => explainLstatError env
  | .stat => explainStatError env
  | .unlink => explainUnlinkError env

/-! ## Which errors go to the path walk -/

def Explainer.pathFlags : Explainer → UInt32
  | .unlink => explainPathFlWantUnlink
  | _ => explainPathFlWantSearch ||| explainPathFlMustHaveMode

def Explainer.mode : Explainer → UInt32
  | .chroot => sIfdir
  | _ => sIfreg

/-- The `case`s of the four `switch`es that call `explain_path_error`. -/
def Explainer.walks (uid : UInt32) : Explainer → Errno → Bool
  | _, .eacces | _, .enoent | _, .eloop | _, .enametoolong => true
  | .chroot, .enotdir => true
  | .chroot, .eperm => uid == prRootUid
  | _, .eperm => true
  | _, _ => false

theorem Explainer.explain_of_walks {env : Env w} {call : Explainer} {xerrno : Errno}
    (h : call.walks env.getuid xerrno = true) (pf : Platform w) (p : Pool) (path : Option CStr)
    (wd : World) :
    call.explain env pf p xerrno path wd =
      let r := explainPathError env pf (some p) xerrno path call.pathFlags call.mode wd
      { explained := r.1, args := getArgs env path, world := r.2 } := by
  cases call with
  | chroot =>
    cases xerrno with
    | eperm =>
      have huid : env.getuid = prRootUid := by simpa [Explainer.walks] using h
      show explainChrootError env pf p .eperm path wd = _
      unfold explainChrootError
      simp only [huid, ne_eq, not_true_eq_false, if_false]
      rfl
    | _ => first | rfl | cases h
  | _ => cases xerrno <;> first | rfl | cases h

theorem Explainer.explained_of_walks {env : Env w} {call : Explainer} {xerrno : Errno}
    (h : call.walks env.getuid xerrno = true) (pf : Platform w) (p : Pool) (path : Option CStr)
    (wd : World) :
    (call.explain env pf p xerrno path wd).explained =
      (explainPathError env pf (some p) xerrno path call.pathFlags call.mode wd).1 := by
  rw [Explainer.explain_of_walks h]

/-- Any other error is described without looking at the path. -/
theorem Explainer.explain_of_not_walks {env : Env w} {call : Explainer} {xerrno : Errno}
    (h : call.walks env.getuid xerrno = false) (hne : xerrno ≠ .zero) (pf : Platform w) (p : Pool)
    (path : Option CStr) (wd : World) :
    ∃ text, (call.explain env pf p xerrno path wd).explained = some text := by
  cases call with
  | chroot =>
    cases xerrno with
    | eperm =>
      have huid : env.getuid ≠ prRootUid := by simpa [Explainer.walks] using h
      refine ⟨describeNonrootEperm env (lit "chroot(2)"), ?_⟩
      show (explainChrootError env pf p .eperm path wd).explained = _
      unfold explainChrootError
      simp only [if_pos huid]
    | zero => exact absurd rfl hne
    | _ => first | exact ⟨_, rfl⟩ | cases h
  | _ =>
    cases xerrno with
    | zero => exact absurd rfl hne
    | _ => first | exact ⟨_, rfl⟩ | cases h

end Explain
