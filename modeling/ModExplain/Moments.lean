import ModExplain.Races
import ModExplain.Reasons

/-!
# True when it was looked up

Files may come, go and change in any way while a walk is under way.  What its
explanation says of them was so at the moment of the lookup it rests on, and each
prefix above had been a directory or a symlink when its turn came
(`explained_held`).
-/

namespace Explain

open Namei

variable {w : Nat} {env : Env w} {ns : List Name} {T : Nat → LinkFs}

/-- What is at `ns`, a symlink at the end not followed. -/
abbrev LinkFs.find (t : LinkFs) (ns : List Name) : Except Fault (Nat × Place Name FileNode) :=
  lookup t.links t.maxLinks ns

/-- In a walk begun at the `n`-th lookup the first `k` prefixes were directories or
symlinks when they were looked up. -/
def Passed (T : Nat → LinkFs) (n : Nat) (ns : List Name) (k : Nat) : Prop :=
  ∀ i < k, ∃ q, (T (n + i)).find (ns.take i) = .ok q ∧
    (Inode.isDir q.2.inode = true ∨ q.2.inode.target.isSome = true)

/-- What the prefix before the last name of `ns` was in `t`; of a symlink, its own
mode and owner. -/
inductive ParentHeld (t : LinkFs) (ns : List Name) : Parent → Prop
  | unread (h : ∀ q, t.find ns.dropLast = .ok q → ns = []) : ParentHeld t ns .unread
  | unnamed (h : ns = []) : ParentHeld t ns .unnamed
  | found {q : Nat × Place Name FileNode} (hne : ns ≠ []) (h : t.find ns.dropLast = .ok q) :
      ParentHeld t ns (.found (absPath ns.dropLast) (q.2.inode.stat.stMode &&& ~~~sIfmt).toNat
        q.2.inode.stat.stUid q.2.inode.stat.stGid)

/-- The reason was so when it was looked up.  A leaf was found or refused: that it may
not be searched, or its directory not written, is the word of the error. -/
inductive Held (T : Nat → LinkFs) (n : Nat) (ns : List Name) : Reason → Prop
  | pathTooLong {max : Nat} (h : max < (absPath ns).length) :
      Held T n ns (.pathTooLong (absPath ns) (absPath ns).length max)
  | nameTooLong {k max : Nat} {name : CStr} (hpassed : Passed T n ns k)
      (hname : (root :: ns.map Name.bytes)[k]? = some name) (h : max < name.length) :
      Held T n ns (.nameTooLong name name.length max)
  | missing {k : Nat} (hk : k ≤ ns.length) (hpassed : Passed T n ns k)
      (h : (T (n + k)).find (ns.take k) = .error (.obstacle .missing)) :
      Held T n ns (.missing (decide (k = ns.length)) (absPath (ns.take k)))
  | unsearchable {k : Nat} (hk : k < ns.length) (hpassed : Passed T n ns k)
      (h : (T (n + k)).find (ns.take k) = .error (.obstacle .unsearchable)) :
      Held T n ns (.unsearchable (absPath (ns.take k)))
  | notDir {k : Nat} {q : Nat × Place Name FileNode} (hk : k < ns.length)
      (hpassed : Passed T n ns k) (h : (T (n + k)).find (ns.take k) = .ok q)
      (hdir : Inode.isDir q.2.inode = false) (hlink : q.2.inode.target = none) :
      Held T n ns (.notDir (absPath (ns.take k)))
  | leafLookup {search : Bool} (hpassed : Passed T n ns ns.length)
      (h : (T (n + ns.length)).find ns = .error (.obstacle .unsearchable)) :
      Held T n ns (.leaf search (absPath ns) .unread)
  | leaf {search : Bool} {q : Nat × Place Name FileNode} {parent : Parent}
      (hpassed : Passed T n ns ns.length) (h : (T (n + ns.length)).find ns = .ok q)
      (hparent : ParentHeld (T (n + (ns.length + 1))) ns parent) :
      Held T n ns (.leaf search (absPath ns) parent)

theorem dirOrLink_fileNode (i : FileNode) :
    DirOrLink i.stat ↔ Inode.isDir i = true ∨ i.target.isSome = true := by
  unfold DirOrLink
  rw [i.isLink]
  rfl

theorem lstatLinks_error_inv {t : LinkFs} {e : Errno} (h : lstatLinks t ns = .error e) :
    ∃ f, t.find ns = .error f ∧ e = faultErrno f := by
  cases hres : t.find ns with
  | error f =>
    rw [lstatLinks_error hres, Except.error.injEq] at h
    exact ⟨f, rfl, h.symm⟩
  | ok q =>
    rw [lstatLinks_ok hres] at h
    cases h

theorem lstatLinks_ok_inv {t : LinkFs} {st : Stat} (h : lstatLinks t ns = .ok st) :
    ∃ q, t.find ns = .ok q ∧ st = q.2.inode.stat := by
  cases hres : t.find ns with
  | error f =>
    rw [lstatLinks_error hres] at h
    cases h
  | ok q =>
    rw [lstatLinks_ok hres, Except.ok.injEq] at h
    exact ⟨q, rfl, h.symm⟩

section Walk

variable (hcore : CoreLaws env (absPath ns)) (hT : Over env T) {errErrno : Errno} {flags : UInt32}
  {nameMax noTrunc : Long w} {wd : World} {k : Nat}
include hcore hT

/-- Where the walk did not halt it passed. -/
theorem passed_of_least
    (hleast : IsLeast {i | Halts env errErrno nameMax noTrunc (root :: ns.map Name.bytes) wd i} k)
    (hk : k ≤ ns.length) : Passed T wd.lstatCalls.length ns k := by
  intro i hi
  have hlen : (root :: ns.map Name.bytes).length = ns.length + 1 := by simp
  have hgo : ¬ StopsAt (ns.length + 1) (answerAt env (root :: ns.map Name.bytes) wd) i := by
    intro hstop
    have hle := hleast.2 (show Halts env errErrno nameMax noTrunc _ wd i from Or.inr (hlen ▸ hstop))
    omega
  obtain ⟨st, hst, hty⟩ := dirOrLink_of_not_stopsAt (by omega) hgo
  rw [answerAt_over hcore hT wd (by omega)] at hst
  obtain ⟨q, hq, rfl⟩ := lstatLinks_ok_inv hst
  exact ⟨q, hq, (dirOrLink_fileNode _).1 hty⟩

/-- The lookup of the parent, right after that of the whole path. -/
theorem parentFound_held (m : Nat) :
    ParentHeld (T m) ns (parentFound (parentOf env (root :: ns.map Name.bytes) ns.length)
      (env.lstat m (parentOf env (root :: ns.map Name.bytes) ns.length))) := by
  cases hlen : ns.length with
  | zero =>
    have hnil : ns = [] := List.length_eq_zero_iff.1 hlen
    cases env.lstat m (parentOf env (root :: ns.map Name.bytes) 0) with
    | error e => exact .unread fun _ _ => hnil
    | ok st => exact .unnamed hnil
  | succ k =>
    have hne : ns ≠ [] := by
      rintro rfl
      cases hlen
    have hparent : parentOf env (root :: ns.map Name.bytes) (k + 1) = some (absPath ns.dropLast) := by
      rw [List.dropLast_eq_take, hlen]
      exact congrArg some (prefixAt_absPath hcore.joins k (by omega))
    rw [hparent, hT]
    cases hq : (T m).find ns.dropLast with
    | error f =>
      rw [lstatLinks_error hq]
      refine .unread fun q hq' => ?_
      rw [hq] at hq'
      cases hq'
    | ok q =>
      rw [lstatLinks_ok hq]
      exact .found hne hq

/-- The reason found where the walk halts. -/
theorem reasonAt_held
    (hleast : IsLeast {i | Halts env errErrno nameMax noTrunc (root :: ns.map Name.bytes) wd i} k)
    (hk : k < (root :: ns.map Name.bytes).length) {r : Reason}
    (h : reasonAt env errErrno flags nameMax noTrunc (root :: ns.map Name.bytes) wd k = some r) :
    Held T wd.lstatCalls.length ns r := by
  have hlen : (root :: ns.map Name.bytes).length = ns.length + 1 := by simp
  have hkle : k ≤ ns.length := by omega
  have hpassed := passed_of_least hcore hT hleast hkle
  have hlast : (k = (root :: ns.map Name.bytes).length - 1) = (k = ns.length) := by
    rw [hlen, Nat.add_sub_cancel]
  have hwhole : ns.take ns.length = ns := List.take_length
  unfold reasonAt at h
  rw [prefixAt_absPath hcore.joins k hkle] at h
  by_cases hlong : TooLong errErrno nameMax noTrunc ((root :: ns.map Name.bytes).getD k [])
  · simp only [if_pos hlong, Option.some.injEq] at h
    subst h
    refine .nameTooLong hpassed ?_ hlong.2.1
    rw [List.getD_eq_getElem?_getD, List.getElem?_eq_getElem hk]
    rfl
  simp only [if_neg hlong] at h
  cases hans : answerAt env (root :: ns.map Name.bytes) wd k with
  | error e =>
    rw [hans] at h
    rw [answerAt_over hcore hT wd hkle] at hans
    obtain ⟨f, hf, rfl⟩ := lstatLinks_error_inv hans
    cases f with
    | loop => cases h
    | obstacle o =>
      cases o with
      | missing =>
        cases h
        simp only [hlast]
        exact .missing hkle hpassed hf
      | notDir => cases h
      | unsearchable =>
        simp only [faultErrno, obstacleErrno, hlast] at h
        by_cases hend : k = ns.length
        · rw [if_pos hend] at h
          cases h
          subst hend
          rw [hwhole] at hf ⊢
          exact .leafLookup hpassed hf
        · rw [if_neg hend] at h
          cases h
          exact .unsearchable (by omega) hpassed hf
  | ok st =>
    rw [hans] at h
    have hstop := hleast.1.resolve_left hlong
    have hfound := hans
    rw [answerAt_over hcore hT wd hkle] at hfound
    obtain ⟨q, hq, rfl⟩ := lstatLinks_ok_inv hfound
    simp only [ne_eq, hlast] at h
    by_cases hend : k = ns.length
    · rw [if_neg (not_not_intro hend)] at h
      subst hend
      split at h
      · cases h
        rw [hwhole] at hq ⊢
        exact .leaf hpassed hq (parentFound_held hcore hT _)
      · cases h
    · rw [if_pos hend] at h
      cases h
      have hty := not_dirOrLink_of_stopsAt hstop hans (by simpa using hend)
      rw [dirOrLink_fileNode, not_or, Bool.not_eq_true] at hty
      exact .notDir (by omega) hpassed hq hty.1 (by simpa using hty.2)

end Walk

/-- **True then.**  Under whatever changes to the files while it is under way, a
walk that explains an error gives the text of a reason that was so when it was
looked up. -/
theorem explained_held (hcore : CoreLaws env (absPath ns)) (hT : Over env T) {call : Explainer}
    {xerrno : Errno} (hwalks : call.walks env.getuid xerrno = true) (pf : Platform w) (p : Pool)
    (wd : World) {text : CStr}
    (htext : (call.explain env pf p xerrno (some (absPath ns)) wd).explained = some text) :
    ∃ r, Held T wd.lstatCalls.length ns r ∧ text = r.render env.prUid2str env.prGid2str := by
  obtain ⟨r, hr⟩ := exists_reasoned env pf xerrno (absPath ns) call.pathFlags wd
  rw [Explainer.explained_of_walks hwalks, explainPathError_render hr] at htext
  cases r with
  | none => cases htext
  | some r =>
    refine ⟨r, ?_, (Option.some.inj htext).symm⟩
    rcases hr with ⟨hlong, heq⟩ | ⟨-, k, hk, hleast, heq⟩
    · cases heq
      exact .pathTooLong hlong.2.2
    · rw [pathSplit_absPath hcore] at hk hleast heq
      exact reasonAt_held hcore hT hleast hk heq.symm

/-- `/home` is a symlink to `/bob`, and `/bob` goes after the walk looked up `/`. -/
theorem explained_held_bobGone : ∃ r, Held bobGone 0 [home, report] r ∧
    lit "file '/home/report' does not exist" = r.render (digits 10 ·.toNat) (digits 10 ·.toNat) :=
  @explained_held _ _ _ _ (raceHost_laws _ (absPath [home, report])) (raceHost_over _) .stat .enoent
    rfl .initial ⟨0⟩ .start _ (by decide)

end Explain
