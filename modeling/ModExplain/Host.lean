import ModExplain.Lib.Loop

/-!
# What the module finds outside itself

C strings, `errno`, `struct stat`, the `long` of the platform, and the calls
the module makes to proftpd's core and to libc.  `Env` holds everything that
answers the module from outside (the filesystem behind `pr_fsio_lstat`,
`pathconf`, the core's string functions, what lies on the stack); `World` is
what such calls leave behind: `errno` and the record of the calls made.

Pools only say where memory comes from, so functions that merely allocate in
one do not take it; the ones that test it for NULL do.
-/

namespace Explain

/-! ## C data -/

/-- A C string: its bytes, without the NUL that ends it. -/
abbrev CStr := List UInt8

/-- The bytes of an (ASCII) string literal. -/
def lit (s : String) : CStr := s.toList.map fun c => UInt8.ofNat c.toNat

def nul : UInt8 := 0
def slash : UInt8 := 47
def dot : UInt8 := 46

/-- The string read at the start of some bytes: up to the first NUL. -/
def cstrAt (mem : List UInt8) : CStr := mem.takeWhile (· ≠ nul)

/-- `errno` values.  `zero` is "no error", `other` any value the module has no
case for; `EWOULDBLOCK` is `EAGAIN`. -/
inductive Errno where
  | zero
  | eperm | enoent | eintr | eio | eagain | enomem | eacces | efault | enotdir
  | einval | enfile | emfile | enametoolong | enosys | eloop
  | other (n : Nat)
deriving DecidableEq, Repr

/-- A `long` of `w` bits: signed it is `toInt`, converted to `unsigned long`
it is `toNat`. -/
abbrev Long (w : Nat) := BitVec w

structure Stat where
  stMode : UInt32
  stUid : UInt32
  stGid : UInt32
deriving DecidableEq, Repr

def sIfmt : UInt32 := 0o170000
def sIfdir : UInt32 := 0o040000
def sIfreg : UInt32 := 0o100000
def sIflnk : UInt32 := 0o120000

def sIsdir (m : UInt32) : Bool := m &&& sIfmt == sIfdir
def sIslnk (m : UInt32) : Bool := m &&& sIfmt == sIflnk

structure Pool where
  id : Nat
deriving DecidableEq, Repr

inductive PathconfName where
  | nameMax
  | noTrunc
  | pathMax
deriving DecidableEq, Repr

/-! ## The environment -/

/-- An answer of `pathconf`: an `errno`, or a limit (−1 for "no limit"). -/
abbrev Pathconf (w : Nat) := CStr → PathconfName → Except Errno (Long w)

structure Env (w : Nat) where
  /-- `PR_TUNABLE_PATH_MAX` -/
  prTunablePathMax : Nat
  /-- `HAVE_PATHCONF` is defined -/
  havePathconf : Bool
  /-- the bytes `pr_fs_virtual_path(path, buf, len)` leaves where `buf` starts -/
  prFsVirtualPath : CStr → List UInt8 → List UInt8
  /-- `pr_str_text_to_array(p, text, '/')` -/
  prStrTextToArray : CStr → List CStr
  pdircat : CStr → CStr → CStr
  prUid2str : UInt32 → CStr
  prGid2str : UInt32 → CStr
  getuid : UInt32
  /-- the bytes found from the start of `path_split`'s `buf` on -/
  stack : List UInt8
  /-- the argument slots after the last argument a call passes -/
  slots : List (Option CStr) → List (Option CStr)
  /-- the answer to the `n`-th call of `pr_fsio_lstat` (NULL is `none`) -/
  lstat : Nat → Option CStr → Except Errno Stat
  pathconf : Pathconf w

structure World where
  errno : Errno
  lstatCalls : List (Option CStr)
  pathconfCalls : List (CStr × PathconfName)
deriving DecidableEq

/-- Before any call. -/
def World.start : World := ⟨.zero, [], []⟩

/-- `errno` after a call: a failing call sets it. -/
def errnoAfter {α : Type} (errno : Errno) : Except Errno α → Errno
  | .error e => e
  | .ok _ => errno

variable {w : Nat}

def prFsioLstat (env : Env w) (path : Option CStr) (wd : World) : Except Errno Stat × World :=
  let res := env.lstat wd.lstatCalls.length path
  (res, { wd with errno := errnoAfter wd.errno res, lstatCalls := wd.lstatCalls ++ [path] })

/-- `pathconf(path, name)`: −1 when it fails. -/
def pathconf (env : Env w) (path : CStr) (name : PathconfName) (wd : World) : Long w × World :=
  let res := env.pathconf path name
  (match res with | .error _ => -1 | .ok v => v,
    { wd with errno := errnoAfter wd.errno res, pathconfCalls := wd.pathconfCalls ++ [(path, name)] })

/-! ## `pstrcat` and numbers as text -/

/-- The strings up to the first NULL, concatenated. -/
def catArgs : List (Option CStr) → CStr
  | [] => []
  | none :: _ => []
  | some s :: args => s ++ catArgs args

/-- `pstrcat(p, ...)`.  `args` are the arguments the call passes, its NULL
included; without a NULL the slots after them are read. -/
def pstrcat (env : Env w) (args : List (Option CStr)) : CStr := catArgs (args ++ env.slots args)

@[simp] theorem catArgs_none (args : List (Option CStr)) : catArgs (none :: args) = [] := rfl

@[simp] theorem catArgs_some (s : CStr) (args : List (Option CStr)) :
    catArgs (some s :: args) = s ++ catArgs args := rfl

def digits (base n : Nat) : CStr := (Nat.toDigits base n).map fun c => UInt8.ofNat c.toNat

/-- `%04o` of the permission bits. -/
def mode2s (o : UInt32) : CStr := (digits 8 (o &&& ~~~sIfmt).toNat).leftpad 4 48

/-- `%lu` -/
def ul2s (l : Nat) : CStr := digits 10 l

end Explain
