import ModExplain.Blame
import ModExplain.Lib.Links

/-!
# Filesystems with symlinks

`lstatLinks` does not follow a symlink at the end of a path, `stat(2)` and
`chroot(2)` do (`followError`).  The walk always asks `lstat`, so a dangling
symlink in the last place is all it does not see (`explain_follow_enoent_iff`).
-/

namespace Explain

open Namei

/-- A file; `target` is where a symlink leads. -/
structure FileNode where
  stat : Stat
  search : Bool
  target : Option (Link Name)
  isLink : sIslnk stat.stMode = target.isSome

instance : Inode FileNode where
  isDir n := sIsdir n.stat.stMode
  search n := n.search

/-- A directory is not a symlink. -/
theorem sIsdir_of_sIslnk {m : UInt32} (h : sIslnk m = true) : sIsdir m = false := by
  unfold sIslnk at h
  unfold sIsdir
  rw [beq_iff_eq.1 h]
  decide

/-- `maxLinks` symlinks are followed in one resolution. -/
structure LinkFs where
  tree : Tree Name FileNode
  maxLinks : Nat

def LinkFs.links (t : LinkFs) : LinkTree Name FileNode :=
  { t.tree with
    link := FileNode.target
    link_notDir := fun i l h => sIsdir_of_sIslnk (by rw [i.isLink, h]; rfl) }

def faultErrno : Fault → Errno
  | .obstacle o => obstacleErrno o
  | .loop => .eloop

def lstatLinks (t : LinkFs) (ns : List Name) : Except Errno Stat :=
  match lookup t.links t.maxLinks ns with
  | .error e => .error (faultErrno e)
  | .ok q => .ok q.2.inode.stat

/-- The error of a call that follows a symlink at the end of its path. -/
def followError (t : LinkFs) (ns : List Name) (call : Explainer) : Option Errno :=
  match walk t.links true t.maxLinks t.links.root (ns.map .name) with
  | .error e => some (faultErrno e)
  | .ok q =>
    if call = .chroot then
      if Inode.isDir q.2.inode = false then some .enotdir
      else if Inode.search q.2.inode = false then some .eacces
      else none
    else none

/-- `fs` answers `lstat` for absolute paths as the filesystem does. -/
def AnswersLinks (fs : CStr → Except Errno Stat) (t : LinkFs) : Prop :=
  ∀ ns, fs (absPath ns) = lstatLinks t ns

variable {w : Nat} {env : Env w} {ns : List Name} {fs : CStr → Except Errno Stat} {t : LinkFs}

theorem lstatLinks_error {e : Fault} (h : lookup t.links t.maxLinks ns = .error e) :
    lstatLinks t ns = .error (faultErrno e) := by
  unfold lstatLinks
  rw [h]

theorem lstatLinks_ok {q : Nat × Place Name FileNode} (h : lookup t.links t.maxLinks ns = .ok q) :
    lstatLinks t ns = .ok q.2.inode.stat := by
  unfold lstatLinks
  rw [h]

theorem faultErrno_eq_enoent {e : Fault} (h : faultErrno e = .enoent) : e = .obstacle .missing := by
  cases e with
  | loop => cases h
  | obstacle o => cases o <;> first | rfl | cases h

/-- A filesystem with symlinks still answers from left to right. -/
theorem AnswersLinks.leftToRight (h : AnswersLinks fs t) (ns : List Name) : LeftToRight fs ns where
  persists i j e hij _ he := by
    rw [h] at he ⊢
    have hsplit := List.take_append_drop i (ns.take j)
    rw [List.take_take, Nat.min_eq_left hij] at hsplit
    cases hr : lookup t.links t.maxLinks (ns.take i) with
    | error f =>
      rw [lstatLinks_error hr] at he
      rw [← hsplit, lstatLinks_error (lookup_append_error hr _), he]
    | ok q =>
      rw [lstatLinks_ok hr] at he
      cases he
  notDir i j st hij hj hst hty := by
    rw [h] at hst ⊢
    have hsplit := List.take_append_drop i (ns.take j)
    rw [List.take_take, Nat.min_eq_left hij.le] at hsplit
    cases hr : lookup t.links t.maxLinks (ns.take i) with
    | error f =>
      rw [lstatLinks_error hr] at hst
      cases hst
    | ok q =>
      rw [lstatLinks_ok hr, Except.ok.injEq] at hst
      subst hst
      unfold DirOrLink at hty
      rw [not_or, Bool.not_eq_true, Bool.not_eq_true, FileNode.isLink] at hty
      have hlink : q.2.inode.target = none := by simpa using hty.2
      obtain ⟨x, ms, hx⟩ : ∃ x ms, (ns.take j).drop i = x :: ms := by
        cases hd : (ns.take j).drop i with
        | nil =>
          have hlen := congrArg List.length hd
          rw [List.length_drop, List.length_take, List.length_nil] at hlen
          omega
        | cons x ms => exact ⟨x, ms, rfl⟩
      rw [← hsplit, hx, lstatLinks_error (lookup_below hr hlink hty.1 x ms)]
      rfl

/-- Where the whole path exists, its proper prefixes are directories and
symlinks. -/
theorem LeftToRight.prefixes (h : LeftToRight fs ns) {st : Stat} (hst : fs (absPath ns) = .ok st)
    (i : Nat) (hi : i < ns.length) : ∃ st, fs (absPath (ns.take i)) = .ok st ∧ DirOrLink st := by
  have hwhole : ns.take ns.length = ns := List.take_length
  cases hpre : fs (absPath (ns.take i)) with
  | error e =>
    have hv := h.persists i ns.length e hi.le (Nat.le_refl _) hpre
    rw [hwhole, hst] at hv
    cases hv
  | ok st' =>
    refine ⟨st', rfl, ?_⟩
    by_contra hty
    have hv := h.notDir i ns.length st' hi (Nat.le_refl _) hpre hty
    rw [hwhole, hst] at hv
    cases hv

/-! ## ENOENT behind a symlink -/

/-- The text names the path, in quotes. -/
def Names (text path : CStr) : Prop := lit "'" ++ path ++ lit "'" <:+: text

theorem names_enoent (k n : Nat) (path : CStr) :
    Names ((if k < n then lit "directory '" else lit "file '") ++ path ++ lit "' does not exist")
      path := by
  have hend : lit "' does not exist" = lit "'" ++ lit " does not exist" := by decide
  by_cases h : k < n
  · refine ⟨lit "directory ", lit " does not exist", ?_⟩
    have hbegin : lit "directory '" = lit "directory " ++ lit "'" := by decide
    rw [if_pos h, hend, hbegin]
    simp only [List.append_assoc]
  · refine ⟨lit "file ", lit " does not exist", ?_⟩
    have hbegin : lit "file '" = lit "file " ++ lit "'" := by decide
    rw [if_neg h, hend, hbegin]
    simp only [List.append_assoc]

/-- A call that follows fails with ENOENT, and its path exists to `lstat`: the
path is a symlink. -/
theorem followError_enoent {call : Explainer} (h : followError t ns call = some .enoent) :
    lstatLinks t ns = .error .enoent ∨ ∃ st, lstatLinks t ns = .ok st ∧ sIslnk st.stMode = true := by
  have hwalk : walk t.links true t.maxLinks t.links.root (ns.map .name) =
      .error (.obstacle .missing) := by
    unfold followError at h
    split at h
    · rename_i e he
      rw [Option.some.injEq] at h
      rw [he, faultErrno_eq_enoent h]
    · split at h
      · split at h
        · cases h
        · split at h
          · cases h
          · cases h
      · cases h
  rcases walk_nofollow t.maxLinks t.links.root (ns.map .name) with heq | ⟨r, l, hr, hl⟩
  · exact Or.inl (lstatLinks_error (heq.trans hwalk))
  · refine Or.inr ⟨_, lstatLinks_ok hr, ?_⟩
    have htarget : r.2.inode.target = some l := hl
    rw [r.2.inode.isLink, htarget]
    rfl

/-- **ENOENT behind a symlink.**  When `stat(2)` or `chroot(2)` finds nothing, the
first missing prefix or the dangling symlink is named exactly when the path does
not end in a symlink. -/
theorem explain_follow_enoent_iff (hcore : CoreLaws env (absPath ns)) (hfs : Static env fs)
    (ht : AnswersLinks fs t) {call : Explainer} (hcall : call = .stat ∨ call = .chroot)
    (hfail : followError t ns call = some .enoent) (pf : Platform w) (p : Pool) (wd : World) :
    (∃ text, (call.explain env pf p .enoent (some (absPath ns)) wd).explained = some text ∧
      ((∃ k ≤ ns.length, fs (absPath (ns.take k)) = .error .enoent ∧
          (∀ i < k, ∃ st, fs (absPath (ns.take i)) = .ok st) ∧ Names text (absPath (ns.take k))) ∨
        (∀ i ≤ ns.length, ∃ st, fs (absPath (ns.take i)) = .ok st) ∧ Names text (absPath ns))) ↔
    ¬ ∃ st, fs (absPath ns) = .ok st ∧ sIslnk st.stMode = true := by
  have hwalks : call.walks env.getuid .enoent = true := by rcases hcall with rfl | rfl <;> rfl
  rw [Explainer.explained_of_walks hwalks]
  have hres := ht.leftToRight ns
  rcases followError_enoent hfail with hmiss | ⟨st, hst, hlnk⟩
  · rw [← ht] at hmiss
    obtain ⟨k, hk, he, hbefore, htext⟩ := explainPathError_enoent hcore hfs hres hmiss pf p
      call.pathFlags call.mode wd
    constructor
    · rintro - ⟨st, hst, -⟩
      rw [hmiss] at hst
      cases hst
    · intro _
      refine ⟨_, htext, Or.inl ⟨k, hk, he, fun i hi => ?_, names_enoent _ _ _⟩⟩
      obtain ⟨st, hst, -⟩ := hbefore i hi
      exact ⟨st, hst⟩
  · rw [← ht] at hst
    have herr : Errno.enoent ≠ .enametoolong := by decide
    have hnone := explainPathError_leaf hcore hfs (hres.prefixes hst) hst pf p herr (by decide)
      call.pathFlags call.mode wd
    rw [hnone]
    constructor
    · rintro ⟨text, htext, -⟩
      cases htext
    · intro h
      exact absurd ⟨st, hst, hlnk⟩ h

/-! ## A host with symlinks -/

def anOpenDir : FileNode := ⟨⟨sIfdir ||| 0o755, 0, 0⟩, true, none, by decide⟩

def aLink (l : Link Name) : FileNode := ⟨⟨sIflnk ||| 0o777, 0, 0⟩, false, some l, rfl⟩

/-- The given files under an open root directory. -/
def linkFsOf (files : List (List Name × FileNode)) : LinkFs where
  tree :=
    { node := fun ns => if ns = [] then some anOpenDir else files.lookup ns
      top := anOpenDir
      node_nil := rfl
      top_isDir := by decide }
  maxLinks := 40

/-- `bareHost` with the files of `t`. -/
def linkHost (t : LinkFs) : Env 64 :=
  { bareHost with
    lstat := fun _ path =>
      match path with
      | some path => lstatLinks t (namesOf path)
      | none => .error .einval }

theorem linkHost_laws (t : LinkFs) (v : CStr) : CoreLaws (linkHost t) v :=
  ⟨fun _ => rfl, fun _ => rfl, bareHost_joins⟩

theorem linkHost_static (t : LinkFs) : Static (linkHost t) fun path => lstatLinks t (namesOf path) :=
  fun _ _ => rfl

theorem linkHost_answers (t : LinkFs) : AnswersLinks (fun path => lstatLinks t (namesOf path)) t := by
  intro ns
  show lstatLinks t (namesOf (absPath ns)) = _
  rw [namesOf_absPath]

/-- `/home` is a symlink to `bob`, and `bob` is missing. -/
def danglingHome : LinkFs := linkFsOf [([home], aLink ⟨false, [.name bob]⟩)]

theorem explain_follow_enoent_iff_danglingHome :
    ∃ text, (Explainer.stat.explain (linkHost danglingHome) .initial ⟨0⟩ .enoent
      (some (absPath [home, report])) .start).explained = some text := by
  obtain ⟨text, htext, -⟩ := (explain_follow_enoent_iff (linkHost_laws danglingHome
    (absPath [home, report])) (linkHost_static _) (linkHost_answers _) (Or.inl rfl) (by decide)
    .initial ⟨0⟩ .start).2 (by
      rintro ⟨st, hst, -⟩
      rw [namesOf_absPath] at hst
      cases hst)
  exact ⟨text, htext⟩

/-- The dangling symlink itself is not explained. -/
theorem dangling_link_unexplained :
    ¬ ∀ (t : LinkFs) (ns : List Name) (call : Explainer), call = .stat ∨ call = .chroot →
      followError t ns call = some .enoent →
      ∃ text, (call.explain (linkHost t) .initial ⟨0⟩ .enoent (some (absPath ns)) .start).explained =
        some text := by
  intro h
  obtain ⟨text, htext⟩ := h danglingHome [home] .stat (Or.inl rfl) (by decide)
  have hnone : (Explainer.stat.explain (linkHost danglingHome) .initial ⟨0⟩ .enoent
      (some (absPath [home])) .start).explained = none := by decide
  rw [hnone] at htext
  cases htext

end Explain
