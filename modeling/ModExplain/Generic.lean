import ModExplain.Host

/-!
# `generic.c`: descriptions that fit any system call

All of the `errno` values with a case of their own are defined on the platform;
`EWOULDBLOCK` equals `EAGAIN`.
-/

namespace Explain

variable {w : Nat} (env : Env w)

def describeEagain (syscall : CStr) : CStr :=
  pstrcat env [some (lit "the "), some syscall,
    some (lit " system call was waiting to finish but was told not to wait"), none]

def describeEmfile (_syscall : CStr) : CStr :=
  lit "the process already has the maximum number of file descriptors open"

def describeEnfile (_syscall : CStr) : CStr :=
  lit "the system limit on the total number of open files has been reached"

def describeEintr (syscall : CStr) : CStr :=
  pstrcat env [some (lit "the "), some syscall,
    some (lit " system call was interrupted by a signal before it could finish"), none]

def describeEfault (syscall : CStr) : CStr :=
  pstrcat env [some (lit "one of the "), some syscall,
    some (lit " parameters is null, uninitialized, or points to invalid/unreachable memory"), none]

def describeEio (_syscall : CStr) : CStr :=
  lit "a low-level I/O error occurred, probably in hardware"

def describeEnomem (syscall : CStr) : CStr :=
  pstrcat env [some (lit "there was not enough user-space memory available for "), some syscall,
    some (lit " to succeed"), none]

def describeEperm (syscall : CStr) : CStr :=
  pstrcat env [some (lit "the process does not have the appropriate privileges to use the "),
    some syscall, some (lit " system call"), none]

def describeGeneric (syscall : CStr) : CStr :=
  pstrcat env [some (lit "the entropic gremlins have frobnicated the "), some syscall,
    some (lit " system call"), none]

def explainDescribeGeneric (p : Option Pool) (xerrno : Errno) (syscall : Option CStr) (wd : World) :
    Option CStr × World :=
  match p, syscall with
  | some _, some syscall =>
    match xerrno with
    | .zero => (none, { wd with errno := .enoent })  -- not an error
    | .eagain => (some (describeEagain env syscall), wd)
    | .emfile => (some (describeEmfile syscall), wd)
    | .enfile => (some (describeEnfile syscall), wd)
    | .eintr => (some (describeEintr env syscall), wd)
    | .efault => (some (describeEfault env syscall), wd)
    | .eio => (some (describeEio syscall), wd)
    | .enomem => (some (describeEnomem env syscall), wd)
    | .eperm => (some (describeEperm env syscall), wd)
    | _ => (some (describeGeneric env syscall), wd)
  | _, _ => (none, { wd with errno := .einval })

end Explain
