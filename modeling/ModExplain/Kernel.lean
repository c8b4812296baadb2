import ModExplain.AbsPath
import ModExplain.Lib.Namei

/-!
# What the kernel answers

A static filesystem without symlinks is a tree of inodes with the permissions
of one user; `lstatTree` is `lstat(2)` on it and `callError` the error of each
explained call.  `LeftToRight` is what is left of such a tree on the prefixes
of one path, and allows symlinks on the way.
-/

namespace Explain

open Namei

/-- A file of a filesystem without symlinks; `search` and `write` say what the
user may do in a directory. -/
structure FsNode where
  stat : Stat
  search : Bool
  write : Bool
  noLink : sIslnk stat.stMode = false

instance : Inode FsNode where
  isDir n := sIsdir n.stat.stMode
  search n := n.search

abbrev FsTree := Tree Name FsNode

/-- The error of an obstacle. -/
def obstacleErrno : Obstacle → Errno
  | .missing => .enoent
  | .notDir => .enotdir
  | .unsearchable => .eacces

def lstatTree (t : FsTree) (ns : List Name) : Except Errno Stat :=
  match resolve t ns with
  | .error o => .error (obstacleErrno o)
  | .ok n => .ok n.stat

/-- The user may not write in the directory that holds the last name (`/` is
its own parent). -/
def parentUnwritable (t : FsTree) (ns : List Name) : Bool :=
  match t.node ns.dropLast with
  | some n => !n.write
  | none => false

/-- The error each call fails with, `none` when it succeeds or when what stops
it is not the path (privileges, say). -/
def callError (t : FsTree) (ns : List Name) (call : Explainer) : Option Errno :=
  match resolve t ns with
  | .error o => some (obstacleErrno o)
  | .ok n =>
    match call with
    | .lstat | .stat => none
    | .unlink => if parentUnwritable t ns then some .eacces else none
    | .chroot => if Inode.isDir n then (if n.search then none else some .eacces) else some .enotdir

/-- `fs` answers for absolute paths as the tree does. -/
def Answers (fs : CStr → Except Errno Stat) (t : FsTree) : Prop :=
  ∀ ns, fs (absPath ns) = lstatTree t ns

/-- The answers on the prefixes of `ns` are those of one resolution from left to
right: what fails keeps failing with the same error, and nothing lies below what
is neither a directory nor a symlink. -/
structure LeftToRight (fs : CStr → Except Errno Stat) (ns : List Name) : Prop where
  persists : ∀ i j e, i ≤ j → j ≤ ns.length → fs (absPath (ns.take i)) = .error e →
    fs (absPath (ns.take j)) = .error e
  notDir : ∀ i j st, i < j → j ≤ ns.length → fs (absPath (ns.take i)) = .ok st → ¬ DirOrLink st →
    fs (absPath (ns.take j)) = .error .enotdir

variable {t : FsTree} {ns : List Name} {fs : CStr → Except Errno Stat}

theorem lstatTree_ok {n : FsNode} (h : resolve t ns = .ok n) : lstatTree t ns = .ok n.stat := by
  unfold lstatTree
  rw [h]

theorem lstatTree_error {o : Obstacle} (h : resolve t ns = .error o) :
    lstatTree t ns = .error (obstacleErrno o) := by
  unfold lstatTree
  rw [h]

theorem obstacleErrno_injective : Function.Injective obstacleErrno := by
  intro a b h
  cases a <;> cases b <;> first | rfl | cases h

theorem callError_error {o : Obstacle} (h : resolve t ns = .error o) (call : Explainer) :
    callError t ns call = some (obstacleErrno o) := by
  unfold callError
  rw [h]

/-- A path that resolves is refused to `unlink` only, for its directory. -/
theorem callError_resolved {n : FsNode} (h : resolve t ns = .ok n) {call : Explainer}
    (hcall : call ≠ .chroot) (hfail : callError t ns call = some .eacces) :
    call = .unlink ∧ parentUnwritable t ns = true := by
  unfold callError at hfail
  rw [h] at hfail
  cases call with
  | chroot => exact absurd rfl hcall
  | unlink =>
    refine ⟨rfl, ?_⟩
    by_contra hwr
    dsimp only at hfail
    rw [if_neg hwr] at hfail
    cases hfail
  | _ => cases hfail

theorem dirOrLink_stat (n : FsNode) : DirOrLink n.stat ↔ Inode.isDir n = true := by
  unfold DirOrLink
  rw [n.noLink]
  exact or_iff_left Bool.false_ne_true

/-- A tree resolves every path from left to right. -/
theorem Answers.leftToRight (h : Answers fs t) (ns : List Name) : LeftToRight fs ns where
  persists i j e hij _ he := by
    rw [h] at he ⊢
    cases hr : resolve t (ns.take i) with
    | error o =>
      rw [lstatTree_error hr] at he
      rw [lstatTree_error (resolve_take_error hij hr), he]
    | ok n =>
      rw [lstatTree_ok hr] at he
      cases he
  notDir i j st hij hj hst hty := by
    rw [h] at hst ⊢
    cases hr : resolve t (ns.take i) with
    | error o =>
      rw [lstatTree_error hr] at hst
      cases hst
    | ok n =>
      rw [lstatTree_ok hr, Except.ok.injEq] at hst
      subst hst
      rw [dirOrLink_stat, Bool.not_eq_true] at hty
      exact lstatTree_error (resolve_take_of_enter hij hj hr (enter_notDir hty))

/-! ## A host with a given tree -/

def aDir (search write : Bool) : FsNode := ⟨⟨sIfdir ||| 0o755, 0, 0⟩, search, write, by decide⟩

def aFile : FsNode := ⟨⟨sIfreg ||| 0o644, 0, 0⟩, false, false, by decide⟩

/-- The given files under an open root directory. -/
def treeOf (files : List (List Name × FsNode)) : FsTree where
  node ns := if ns = [] then some (aDir true true) else files.lookup ns
  top := aDir true true
  node_nil := rfl
  top_isDir := by decide

/-- `bareHost` with the files of `t`. -/
def treeHost (t : FsTree) : Env 64 :=
  { bareHost with
    lstat := fun _ path =>
      match path with
      | some path => lstatTree t (namesOf path)
      | none => .error .einval }

theorem treeHost_laws (t : FsTree) (v : CStr) : CoreLaws (treeHost t) v :=
  ⟨fun _ => rfl, fun _ => rfl, bareHost_joins⟩

theorem treeHost_static (t : FsTree) : Static (treeHost t) fun path => lstatTree t (namesOf path) :=
  fun _ _ => rfl

theorem treeHost_answers (t : FsTree) : Answers (fun path => lstatTree t (namesOf path)) t := by
  intro ns
  show lstatTree t (namesOf (absPath ns)) = _
  rw [namesOf_absPath]

end Explain
