import ModExplain.Generic
import ModExplain.Platform

/-!
# `path.c`: walking the path that failed

`explainPathError` splits the path into components (`pathSplit`), and calls
`pr_fsio_lstat` on the longer and longer prefixes until one of them accounts for
the error (`walkBody` is the body of that loop, `Walk` the variables it carries).
-/

namespace Explain

variable {w : Nat} (env : Env w)

/-! ## `path_split` -/

/-- `"/"`, the first component. -/
def root : CStr := [slash]

/-- The components of `path`.  The virtual path is written into an uninitialised
buffer; the `.` for a trailing slash is stored over its terminator. -/
def pathSplit (path : CStr) : List CStr :=
  let buf := env.prFsVirtualPath path env.stack
  let fullPathlen := (cstrAt buf).length
  let buf :=
    if buf[fullPathlen - 1]? = some slash ∧ fullPathlen < env.prTunablePathMax then
      buf.set fullPathlen dot
    else buf
  if fullPathlen = 1 then [root] else root :: env.prStrTextToArray (cstrAt buf)

/-! ## Descriptions -/

def explainPathFlWantSearch : UInt32 := 0x0004
def explainPathFlWantUnlink : UInt32 := 0x0020
def explainPathFlMustHaveMode : UInt32 := 0x0100

def describeEnametoolongName (name : CStr) (nameLen nameMax : Nat) (_flags : UInt32) : CStr :=
  pstrcat env [some (lit "path component '"), some name,
    some (lit "' exceeds the system maximum name length ("), some (ul2s nameLen),
    some (lit " > max "), some (ul2s nameMax), some (lit ")"), none]

def describeEnametoolongPath (path : CStr) (pathLen pathMax : Nat) (_flags : UInt32) : CStr :=
  pstrcat env [some (lit "'"), some path,
    some (lit "' exceeds the system maximum path length ("), some (ul2s pathLen),
    some (lit " > max "), some (ul2s pathMax), some (lit ")"), none]

def describeEaccesDir (path : CStr) (_flags : UInt32) : CStr :=
  pstrcat env [some (lit "directory '"), some path, some (lit "' is not searchable by the user"),
    none]

def describeEaccesFile (path : CStr) (flags : UInt32) : CStr :=
  if flags &&& explainPathFlWantSearch ≠ 0 then
    pstrcat env [some (lit "file '"), some path, some (lit "' is not searchable by the user"), none]
  else
    pstrcat env [some (lit "directory containing '"), some path,
      some (lit "' is not writable by the user"), none]

def describeEnoentDir (path : CStr) (_flags : UInt32) : CStr :=
  pstrcat env [some (lit "directory '"), some path, some (lit "' does not exist"), none]

def describeEnoentFile (path : CStr) (_flags : UInt32) : CStr :=
  pstrcat env [some (lit "file '"), some path, some (lit "' does not exist"), none]

/-- The ENOTDIR text, written inline in the walk. -/
def describeNotDir (path : CStr) : CStr :=
  pstrcat env [some (lit "path '"), some path, some (lit "' does not refer to a directory"), none]

/-- The EACCES text with what `lstat` said about the parent directory. -/
def describeParent (explained : CStr) (prevPath : Option CStr) (st : Stat) : CStr :=
  pstrcat env [some explained, some (lit "; parent directory '"), prevPath, some (lit "' has perms "),
    some (mode2s st.stMode), some (lit ", and is owned by UID "), some (env.prUid2str st.stUid),
    some (lit ", GID "), some (env.prGid2str st.stGid), none]

/-! ## `explain_path_error` -/

/-- The variables the loop carries. -/
structure Walk where
  path : Option CStr
  prevPath : Option CStr
  explained : Option CStr
  world : World

/-- `path` becomes the component, then one component longer a time. -/
def joinComponent (path : Option CStr) (component : CStr) : CStr :=
  match path with
  | none => component
  | some path => env.pdircat path component

/-- `switch (xerrno)` for a prefix whose `lstat` failed. -/
def describeDirLookup (path : CStr) (flags : UInt32) : Errno → Option CStr
  | .enoent => some (describeEnoentDir env path flags)
  | .eacces => some (describeEaccesDir env path flags)
  | _ => none

/-- `switch (xerrno)` for the full path. -/
def describeFileLookup (path : CStr) (flags : UInt32) : Errno → Option CStr
  | .enoent => some (describeEnoentFile env path flags)
  | .eacces => some (describeEaccesFile env path flags)
  | _ => none

/-- The EACCES text for a leaf that exists, given the lookup of `prev_path`. -/
def describeLeaf (path : CStr) (flags : UInt32) (prevPath : Option CStr) :
    Except Errno Stat → CStr
  | .ok st => describeParent env (describeEaccesFile env path flags) prevPath st
  | .error _ => describeEaccesFile env path flags

/-- One iteration: `component` is `elts[i]` of `nelts`. -/
def walkBody (errErrno : Errno) (flags : UInt32) (nameMax noTrunc : Long w) (nelts i : Nat)
    (component : CStr) (s : Walk) : Loop.Flow Walk :=
  if errErrno = .enametoolong ∧ nameMax.toNat < component.length ∧ noTrunc = 1 then
    .brk { s with explained := some (describeEnametoolongName env component component.length
      nameMax.toNat flags) }
  else
    let path := joinComponent env s.path component
    let finalComponent := i = nelts - 1
    let lst := prFsioLstat env (some path) s.world
    let s := { s with path := some path, world := lst.2 }
    if ¬ finalComponent then
      match lst.1 with
      | .error xerrno => .brk { s with explained := describeDirLookup env path flags xerrno }
      | .ok st =>
        if ¬ sIslnk st.stMode ∧ ¬ sIsdir st.stMode then
          .brk { s with explained := some (describeNotDir env path) }
        else .cont { s with prevPath := some path }
    else
      match lst.1 with
      | .error xerrno => .brk { s with explained := describeFileLookup env path flags xerrno }
      | .ok _ =>
        if errErrno = .eacces then
          -- `prev_path` is NULL when there is a single component
          let parent := prFsioLstat env s.prevPath s.world
          .cont { s with
            explained := some (describeLeaf env path flags s.prevPath parent.1)
            world := parent.2
            prevPath := some path }
        else .cont { s with prevPath := some path }

/-- Splitting and walking the path: all of `explain_path_error` after the check
of the path's length. -/
def walkPath (pf : Platform w) (errErrno : Errno) (fullPath : CStr) (flags : UInt32) (wd : World) :
    Option CStr × World :=
  let components := pathSplit env fullPath
  let nameMax := explainPlatformNameMax env pf (some fullPath) wd
  let noTrunc := explainPlatformNoTrunc env pf (some fullPath) nameMax.2
  let s := Loop.run (walkBody env errErrno flags nameMax.1 noTrunc.1 components.length) 0 components
    ⟨none, none, none, noTrunc.2⟩
  (s.explained, s.world)

def explainPathError (pf : Platform w) (p : Option Pool) (errErrno : Errno)
    (fullPath : Option CStr) (flags : UInt32) (_mode : UInt32) (wd : World) :
    Option CStr × World :=
  match p, fullPath with
  | some _, some fullPath =>
    if errErrno = .enametoolong then
      let pathMax := explainPlatformPathMax env pf (some fullPath) wd
      if 0 < pathMax.1.toNat ∧ pathMax.1.toNat < fullPath.length then
        (some (describeEnametoolongPath env fullPath fullPath.length pathMax.1.toNat flags),
          pathMax.2)
      else walkPath env pf errErrno fullPath flags pathMax.2
    else walkPath env pf errErrno fullPath flags wd
  | _, _ => (none, { wd with errno := .einval })

end Explain
