import ModExplain.Fallback
import ModExplain.LinkFs

/-!
# Which failures of a filesystem are explained

Every error that resolving an absolute path can give, in a filesystem with
symlinks, for each of the four calls:

    EACCES    always
    ENOENT    unless the path is a dangling symlink the call followed
    ELOOP     never
    ENOTDIR   by chroot's explainer if some proper prefix is itself neither a
              directory nor a symlink; by the others always, with the text that
              fits any call                             (explained_links_iff)
-/

namespace Explain

open Namei

variable {w : Nat} {env : Env w} {ns : List Name} {fs : CStr → Except Errno Stat} {t : LinkFs}

/-- The call fails with the error: resolving its path does, or, for `unlink`, the
directory the path lies in forbids it. -/
def CallFails (t : LinkFs) (ns : List Name) : Explainer → Errno → Prop
  | .lstat, e => lstatLinks t ns = .error e
  | .unlink, e => lstatLinks t ns = .error e ∨ e = .eacces ∧ ∃ st, lstatLinks t ns = .ok st
  | .stat, e => followError t ns .stat = some e
  | .chroot, e => followError t ns .chroot = some e

/-- The call's explainer has something to say. -/
def Covered (fs : CStr → Except Errno Stat) (ns : List Name) (call : Explainer) : Errno → Prop
  | .enoent => ∃ e, fs (absPath ns) = .error e
  | .eloop => False
  | .enotdir => call ≠ .chroot ∨ ∃ i < ns.length, ∃ st, fs (absPath (ns.take i)) = .ok st ∧ ¬ DirOrLink st
  | _ => True

/-- The errors of resolution. -/
def ResolutionErrno (e : Errno) : Prop := e = .enoent ∨ e = .eacces ∨ e = .eloop ∨ e = .enotdir

theorem resolutionErrno_fault (f : Fault) : ResolutionErrno (faultErrno f) := by
  unfold ResolutionErrno
  cases f with
  | loop => simp [faultErrno]
  | obstacle o => cases o <;> simp [faultErrno, obstacleErrno]

theorem followError_errno {call : Explainer} {e : Errno} (h : followError t ns call = some e) :
    ResolutionErrno e := by
  unfold followError at h
  split at h
  · rename_i f _
    cases h
    exact resolutionErrno_fault f
  · split at h
    · split at h
      · cases h
        exact Or.inr (Or.inr (Or.inr rfl))
      · split at h
        · cases h
          exact Or.inr (Or.inl rfl)
        · cases h
    · cases h

/-- To `lstat` the path fails with the error too, or exists. -/
theorem followError_lstat {call : Explainer} {e : Errno} (h : followError t ns call = some e) :
    lstatLinks t ns = .error e ∨ ∃ st, lstatLinks t ns = .ok st := by
  rcases @walk_nofollow _ _ _ t.links t.maxLinks t.links.root (ns.map .name) with hsame | ⟨r, l, hr, -⟩
  · cases hwalk : walk t.links true t.maxLinks t.links.root (ns.map .name) with
    | error f =>
      unfold followError at h
      rw [hwalk] at h
      cases h
      exact Or.inl (lstatLinks_error (hsame.trans hwalk))
    | ok q => exact Or.inr ⟨_, lstatLinks_ok (hsame.trans hwalk)⟩
  · exact Or.inr ⟨_, lstatLinks_ok hr⟩

theorem CallFails.lstat {call : Explainer} {e : Errno} (h : CallFails t ns call e) :
    ResolutionErrno e ∧ (lstatLinks t ns = .error e ∨ ∃ st, lstatLinks t ns = .ok st) := by
  have hlstat (h : lstatLinks t ns = .error e) : ResolutionErrno e := by
    cases hr : lookup t.links t.maxLinks ns with
    | error f =>
      rw [lstatLinks_error hr, Except.error.injEq] at h
      exact h ▸ resolutionErrno_fault f
    | ok q =>
      rw [lstatLinks_ok hr] at h
      cases h
  cases call with
  | lstat => exact ⟨hlstat h, Or.inl h⟩
  | unlink =>
    rcases h with h | ⟨rfl, hok⟩
    · exact ⟨hlstat h, Or.inl h⟩
    · exact ⟨Or.inr (Or.inl rfl), Or.inr hok⟩
  | stat => exact ⟨followError_errno h, followError_lstat h⟩
  | chroot => exact ⟨followError_errno h, followError_lstat h⟩

section Walk

variable (hcore : CoreLaws env (absPath ns)) (hfs : Static env fs) (hres : LeftToRight fs ns)
  (pf : Platform w) (p : Pool) (flags mode : UInt32) (wd : World)
include hcore hfs hres

/-- The walk of a path that `lstat` cannot resolve ends where it first fails, and
with that error, or at something that is no directory. -/
theorem explainPathError_fails {errErrno e : Errno} (herr : errErrno ≠ .enametoolong)
    (hfail : fs (absPath ns) = .error e) :
    (∃ k, (explainPathError env pf (some p) errErrno (some (absPath ns)) flags mode wd).1 =
        describeDirLookup env (absPath (ns.take k)) flags e) ∨
    (explainPathError env pf (some p) errErrno (some (absPath ns)) flags mode wd).1 =
        describeFileLookup env (absPath ns) flags e ∨
    e = .enotdir ∧ ∃ k < ns.length, (∃ st, fs (absPath (ns.take k)) = .ok st ∧ ¬ DirOrLink st) ∧
      (explainPathError env pf (some p) errErrno (some (absPath ns)) flags mode wd).1 =
        some (describeNotDir env (absPath (ns.take k))) := by
  obtain ⟨k, hk, -, hend⟩ := explainPathError_static hcore hfs pf p herr flags mode wd
  generalize (explainPathError env pf (some p) errErrno (some (absPath ns)) flags mode wd).1 =
    explained at hend ⊢
  have hwhole : ns.take ns.length = ns := List.take_length
  cases hend with
  | @dirLookup e' hlt he =>
    have hpath := hres.persists k ns.length e' hk (Nat.le_refl _) he
    rw [hwhole, hfail, Except.error.injEq] at hpath
    exact Or.inl ⟨k, by rw [hpath]⟩
  | @fileLookup e' _ he =>
    rw [hfail, Except.error.injEq] at he
    exact Or.inr (Or.inl (by rw [he]))
  | @notDir st hlt hst hty =>
    have hpath := hres.notDir k ns.length st hlt (Nat.le_refl _) hst hty
    rw [hwhole, hfail, Except.error.injEq] at hpath
    exact Or.inr (Or.inr ⟨hpath, k, hlt, ⟨st, hst, hty⟩, rfl⟩)
  | leaf _ hst _ =>
    rw [hfail] at hst
    cases hst
  | leafEacces _ hst _ _ _ =>
    rw [hfail] at hst
    cases hst

/-- An EACCES is put down to a prefix, or to the leaf. -/
theorem explainPathError_eacces (h : fs (absPath ns) = .error .eacces ∨ ∃ st, fs (absPath ns) = .ok st) :
    ∃ text,
      (explainPathError env pf (some p) .eacces (some (absPath ns)) flags mode wd).1 = some text := by
  have hacc : Errno.eacces ≠ .enametoolong := by decide
  rcases h with hfail | ⟨st, hst⟩
  · rcases explainPathError_fails hcore hfs hres pf p flags mode wd hacc
      hfail with ⟨k, hk⟩ | hfile | ⟨he, -⟩
    · rw [hk]
      exact ⟨_, rfl⟩
    · rw [hfile]
      exact ⟨_, rfl⟩
    · cases he
  · have hend := explainPathError_endsAt hcore hfs (Nat.le_refl _) (hres.prefixes hst) (Or.inl rfl) pf p
      hacc flags mode wd
    generalize (explainPathError env pf (some p) .eacces (some (absPath ns)) flags mode wd).1 =
      explained at hend ⊢
    cases hend with
    | leafEacces _ _ _ _ _ => exact ⟨_, rfl⟩
    | dirLookup hlt _ => omega
    | notDir hlt _ _ => omega
    | leaf _ _ herr => exact absurd rfl herr
    | fileLookup _ he =>
      rw [hst] at he
      cases he

/-- Neither a loop nor an ENOTDIR on the way has a text. -/
theorem explainPathError_silent {e : Errno} (he : e = .eloop ∨ e = .enotdir)
    (h : fs (absPath ns) = .error e ∨ ∃ st, fs (absPath ns) = .ok st) :
    (∃ text, (explainPathError env pf (some p) e (some (absPath ns)) flags mode wd).1 = some text) ↔
      e = .enotdir ∧ ∃ i < ns.length, ∃ st, fs (absPath (ns.take i)) = .ok st ∧ ¬ DirOrLink st := by
  have herr : e ≠ .enametoolong := by rcases he with rfl | rfl <;> decide
  have hacc : e ≠ .eacces := by rcases he with rfl | rfl <;> decide
  have hdir (q : CStr) : describeDirLookup env q flags e = none := by
    rcases he with rfl | rfl <;> rfl
  have hfile (q : CStr) : describeFileLookup env q flags e = none := by
    rcases he with rfl | rfl <;> rfl
  constructor
  · rintro ⟨text, htext⟩
    rcases h with hfail | ⟨st, hst⟩
    · rcases explainPathError_fails hcore hfs hres pf p flags mode wd herr hfail with
        ⟨k, hk⟩ | hleaf | ⟨henotdir, k, hk, hst, -⟩
      · rw [hk, hdir] at htext
        cases htext
      · rw [hleaf, hfile] at htext
        cases htext
      · exact ⟨henotdir, k, hk, hst⟩
    · rw [explainPathError_leaf hcore hfs (hres.prefixes hst) hst pf p herr hacc] at htext
      cases htext
  · rintro ⟨-, i, hi, st, hst, hty⟩
    refine ⟨_, explainPathError_notDir hcore hfs hi (fun j hj => ?_) hst hty pf p herr flags mode wd⟩
    -- what lies above something that exists is a directory or a symlink
    cases hpre : fs (absPath (ns.take j)) with
    | error e' =>
      rw [hres.persists j i e' hj.le hi.le hpre] at hst
      cases hst
    | ok st' =>
      refine ⟨st', rfl, ?_⟩
      by_contra hty'
      rw [hres.notDir j i st' hj hi.le hpre hty'] at hst
      cases hst

end Walk

/-- **What gets explained.**  For every call, every path of the filesystem it can
fail on, and every error this gives, the failure is explained exactly when the
explainer covers it. -/
theorem explained_links_iff (hcore : CoreLaws env (absPath ns)) (hfs : Static env fs)
    (ht : AnswersLinks fs t) {call : Explainer} {e : Errno} (hfail : CallFails t ns call e)
    (pf : Platform w) (p : Pool) (wd : World) :
    (∃ text, (call.explain env pf p e (some (absPath ns)) wd).explained = some text) ↔
      Covered fs ns call e := by
  obtain ⟨herrno, hlstat⟩ := hfail.lstat
  rw [← ht] at hlstat
  have hres := ht.leftToRight ns
  have hwalks (hne : call = .chroot ∨ e ≠ .enotdir) : call.walks env.getuid e = true := by
    rcases herrno with rfl | rfl | rfl | rfl <;> cases call <;> first | rfl | simp at hne
  rcases herrno with rfl | rfl | rfl | rfl
  · rw [Explainer.explained_of_walks (hwalks (Or.inr (by decide)))]
    rcases hlstat with hmiss | ⟨st, hst⟩
    · obtain ⟨k, -, -, -, htext⟩ := explainPathError_enoent hcore hfs hres hmiss pf p call.pathFlags
        call.mode wd
      exact ⟨fun _ => ⟨_, hmiss⟩, fun _ => ⟨_, htext⟩⟩
    · have herr : Errno.enoent ≠ .enametoolong := by decide
      rw [explainPathError_leaf hcore hfs (hres.prefixes hst) hst pf p herr (by decide)]
      constructor
      · rintro ⟨text, htext⟩
        cases htext
      · rintro ⟨e, he⟩
        rw [hst] at he
        cases he
  · rw [Explainer.explained_of_walks (hwalks (Or.inr (by decide)))]
    exact ⟨fun _ => trivial, fun _ => explainPathError_eacces hcore hfs hres pf p _ _ wd hlstat⟩
  · rw [Explainer.explained_of_walks (hwalks (Or.inr (by decide))),
      explainPathError_silent hcore hfs hres pf p _ _ wd (Or.inl rfl) hlstat]
    exact ⟨fun h => absurd h.1 (by decide), fun h => h.elim⟩
  · by_cases hcall : call = .chroot
    · rw [Explainer.explained_of_walks (hwalks (Or.inl hcall)),
        explainPathError_silent hcore hfs hres pf p _ _ wd (Or.inr rfl) hlstat]
      exact ⟨fun h => Or.inr h.2, fun h => ⟨rfl, h.resolve_left (not_not_intro hcall)⟩⟩
    · have hgeneric : call.walks env.getuid .enotdir = false := by
        cases call <;> first | rfl | exact absurd rfl hcall
      exact ⟨fun _ => Or.inl hcall, fun _ => Explainer.explain_of_not_walks hgeneric (by decide) pf p _ wd⟩

/-- `/home` is a symlink to itself. -/
def loopingHome : LinkFs := linkFsOf [([home], aLink ⟨false, [.name home]⟩)]

/-- A loop is not explained. -/
theorem explained_links_iff_loopingHome :
    (Explainer.stat.explain (linkHost loopingHome) .initial ⟨0⟩ .eloop (some (absPath [home, bob]))
      .start).explained = none := by
  have hfail : CallFails loopingHome [home, bob] .stat .eloop := by
    show followError loopingHome [home, bob] .stat = some .eloop
    decide
  have hiff := explained_links_iff (linkHost_laws loopingHome (absPath [home, bob])) (linkHost_static _)
    (linkHost_answers _) hfail .initial ⟨0⟩ .start
  cases h : (Explainer.stat.explain (linkHost loopingHome) .initial ⟨0⟩ .eloop
      (some (absPath [home, bob])) .start).explained with
  | none => rfl
  | some text => exact (hiff.1 ⟨text, h⟩).elim

end Explain
