import ModExplain.Explainers
import ModExplain.Module

/-!
# `mod_explain.c`: the callbacks of the registered explainer

One for each system call the core may ask about.  Four go to the files of this
module; the others explain nothing and say so in `errno`.
-/

namespace Explain

variable {w : Nat} (env : Env w)

/-- What a callback returns, stores through `args` (if anything) and leaves behind. -/
structure Reply where
  explained : Option CStr
  args : Option CStr
  world : World
deriving DecidableEq

def Explanation.reply (r : Explanation) : Reply := ⟨r.explained, some r.args, r.world⟩

/-- `errno = ENOSYS; return NULL;` -/
def notImplemented (wd : World) : Reply := ⟨none, none, { wd with errno := .enosys }⟩

def explainChmod (_p : Pool) (_xerrno : Errno) (_path : Option CStr) (_mode : UInt32)
    (wd : World) : Reply :=
  notImplemented wd

def explainChown (_p : Pool) (_xerrno : Errno) (_path : Option CStr) (_uid _gid : UInt32)
    (wd : World) : Reply :=
  notImplemented wd

def explainChroot (pf : Platform w) (p : Pool) (xerrno : Errno) (path : Option CStr) (wd : World) :
    Reply :=
  (explainChrootError env pf p xerrno path wd).reply

def explainClose (_p : Pool) (_xerrno : Errno) (_fd : Int) (wd : World) : Reply :=
  notImplemented wd

def explainFchmod (_p : Pool) (_xerrno : Errno) (_fd : Int) (_mode : UInt32) (wd : World) : Reply :=
  notImplemented wd

def explainFchown (_p : Pool) (_xerrno : Errno) (_fd : Int) (_uid _gid : UInt32) (wd : World) :
    Reply :=
  notImplemented wd

def explainLchown (_p : Pool) (_xerrno : Errno) (_path : Option CStr) (_uid _gid : UInt32)
    (wd : World) : Reply :=
  notImplemented wd

def explainLstat (pf : Platform w) (p : Pool) (xerrno : Errno) (path : Option CStr) (wd : World) :
    Reply :=
  (explainLstatError env pf p xerrno path wd).reply

def explainMkdir (_p : Pool) (_xerrno : Errno) (_path : Option CStr) (_mode : UInt32)
    (wd : World) : Reply :=
  notImplemented wd

def explainOpen (_p : Pool) (_xerrno : Errno) (_path : Option CStr) (_flags : Int) (_mode : UInt32)
    (wd : World) : Reply :=
  notImplemented wd

def explainRead (_p : Pool) (_xerrno : Errno) (_fd : Int) (_sz : Nat) (wd : World) : Reply :=
  notImplemented wd

def explainRename (_p : Pool) (_xerrno : Errno) (_oldPath _newPath : Option CStr) (wd : World) :
    Reply :=
  notImplemented wd

def explainRmdir (_p : Pool) (_xerrno : Errno) (_path : Option CStr) (wd : World) : Reply :=
  notImplemented wd

def explainStat (pf : Platform w) (p : Pool) (xerrno : Errno) (path : Option CStr) (wd : World) :
    Reply :=
  (explainStatError env pf p xerrno path wd).reply

def explainUnlink (pf : Platform w) (p : Pool) (xerrno : Errno) (path : Option CStr) (wd : World) :
    Reply :=
  (explainUnlinkError env pf p xerrno path wd).reply

def explainWrite (_p : Pool) (_xerrno : Errno) (_fd : Int) (_sz : Nat) (wd : World) : Reply :=
  notImplemented wd

/-- A failed system call, with its arguments (but for the buffers). -/
inductive Request where
  | chmod (path : Option CStr) (mode : UInt32)
  | chown (path : Option CStr) (uid gid : UInt32)
  | chroot (path : Option CStr)
  | close (fd : Int)
  | fchmod (fd : Int) (mode : UInt32)
  | fchown (fd : Int) (uid gid : UInt32)
  | lchown (path : Option CStr) (uid gid : UInt32)
  | lstat (path : Option CStr)
  | mkdir (path : Option CStr) (mode : UInt32)
  | open (path : Option CStr) (flags : Int) (mode : UInt32)
  | read (fd : Int) (sz : Nat)
  | rename (oldPath newPath : Option CStr)
  | rmdir (path : Option CStr)
  | stat (path : Option CStr)
  | unlink (path : Option CStr)
  | write (fd : Int) (sz : Nat)
deriving DecidableEq

/-- The field the core finds the callback in. -/
def Request.field : Request → ExplainerField
  | .chmod .. => .explainChmod
  | .chown .. => .explainChown
  | .chroot .. => .explainChroot
  | .close .. => .explainClose
  | .fchmod .. => .explainFchmod
  | .fchown .. => .explainFchown
  | .lchown .. => .explainLchown
  | .lstat .. => .explainLstat
  | .mkdir .. => .explainMkdir
  | .open .. => .explainOpen
  | .read .. => .explainRead
  | .rename .. => .explainRename
  | .rmdir .. => .explainRmdir
  | .stat .. => .explainStat
  | .unlink .. => .explainUnlink
  | .write .. => .explainWrite

/-- The callback stored there, applied. -/
def Request.answer (pf : Platform w) (p : Pool) (xerrno : Errno) (wd : World) : Request → Reply
  | .chmod path mode => explainChmod p xerrno path mode wd
  | .chown path uid gid => explainChown p xerrno path uid gid wd
  | .chroot path => explainChroot env pf p xerrno path wd
  | .close fd => explainClose p xerrno fd wd
  | .fchmod fd mode => explainFchmod p xerrno fd mode wd
  | .fchown fd uid gid => explainFchown p xerrno fd uid gid wd
  | .lchown path uid gid => explainLchown p xerrno path uid gid wd
  | .lstat path => explainLstat env pf p xerrno path wd
  | .mkdir path mode => explainMkdir p xerrno path mode wd
  | .open path flags mode => explainOpen p xerrno path flags mode wd
  | .read fd sz => explainRead p xerrno fd sz wd
  | .rename oldPath newPath => explainRename p xerrno oldPath newPath wd
  | .rmdir path => explainRmdir p xerrno path wd
  | .stat path => explainStat env pf p xerrno path wd
  | .unlink path => explainUnlink env pf p xerrno path wd
  | .write fd sz => explainWrite p xerrno fd sz wd

/-- No field is left unset. -/
theorem mem_explainerFields (field : ExplainerField) : field ∈ explainerFields := by
  cases field <;> decide

/-- The system calls this module explains. -/
def Request.explains : Request → Option (Explainer × Option CStr)
  | .chroot path => some (.chroot, path)
  | .lstat path => some (.lstat, path)
  | .stat path => some (.stat, path)
  | .unlink path => some (.unlink, path)
  | _ => none

theorem Request.answer_eq (pf : Platform w) (p : Pool) (xerrno : Errno) (wd : World)
    (req : Request) :
    req.answer env pf p xerrno wd =
      match req.explains with
      | some (call, path) => (call.explain env pf p xerrno path wd).reply
      | none => notImplemented wd := by
  cases req <;> rfl

end Explain
