import ModExplain.Kernel

/-!
# Whom the explanations blame

The kernel's resolution of a path against the explanation of its failure, in
the same filesystem.

* ENOENT: the first missing prefix is named          (`explain_enoent_first_missing`)
* ENOTDIR through a prefix: only the chroot explainer names the prefix
                                                     (`explain_enotdir_iff`)
* ENOTDIR of a chroot target: it is not named       (`explain_chroot_leaf_unexplained`)
* EACCES: the prefix after the directory that may not be searched is blamed, so
  the explanation is true when that prefix happens to deserve it
                                                     (`explain_eacces_sound_iff`)
-/

namespace Explain

open Namei

variable {w : Nat} {env : Env w} {ns : List Name} {fs : CStr → Except Errno Stat} {t : FsTree}

/-! ## ENOENT -/

/-- The walk of a path that is missing names the shortest prefix that is missing,
as a directory when it is a proper prefix. -/
theorem explainPathError_enoent (hcore : CoreLaws env (absPath ns)) (hfs : Static env fs)
    (hres : LeftToRight fs ns) (hmiss : fs (absPath ns) = .error .enoent) (pf : Platform w) (p : Pool)
    (flags mode : UInt32) (wd : World) :
    ∃ k ≤ ns.length, fs (absPath (ns.take k)) = .error .enoent ∧
      (∀ i < k, ∃ st, fs (absPath (ns.take i)) = .ok st ∧ DirOrLink st) ∧
      (explainPathError env pf (some p) .enoent (some (absPath ns)) flags mode wd).1 =
        some ((if k < ns.length then lit "directory '" else lit "file '") ++
          absPath (ns.take k) ++ lit "' does not exist") := by
  have herr : Errno.enoent ≠ .enametoolong := by decide
  obtain ⟨k, hk, hbefore, hend⟩ := explainPathError_static hcore hfs pf p herr flags mode wd
  generalize (explainPathError env pf (some p) .enoent (some (absPath ns)) flags mode wd).1 =
    explained at hend ⊢
  have hwhole : ns.take ns.length = ns := List.take_length
  cases hend with
  | @dirLookup e hlt he =>
    have hv := hres.persists k ns.length e hk (Nat.le_refl _) he
    rw [hwhole, hmiss] at hv
    cases hv
    exact ⟨k, hk, he, hbefore, by simp [describeDirLookup, hlt]⟩
  | @fileLookup e heq he =>
    subst heq
    rw [hmiss] at he
    cases he
    exact ⟨ns.length, hk, by rw [hwhole, hmiss], hbefore, by simp [describeFileLookup]⟩
  | notDir hlt hst hty =>
    have hv := hres.notDir k ns.length _ hlt (Nat.le_refl _) hst hty
    rw [hwhole, hmiss] at hv
    cases hv
  | leaf _ hst _ =>
    rw [hmiss] at hst
    cases hst
  | leafEacces _ hst _ _ _ =>
    rw [hmiss] at hst
    cases hst

/-- **ENOENT.**  The shortest prefix that is missing is named, as a directory
when it is a proper prefix; the shorter ones exist. -/
theorem explain_enoent_first_missing (hcore : CoreLaws env (absPath ns)) (hfs : Static env fs)
    (hres : LeftToRight fs ns) (hmiss : fs (absPath ns) = .error .enoent) {call : Explainer}
    (hcall : call = .lstat ∨ call = .unlink) (pf : Platform w) (p : Pool) (wd : World) :
    ∃ k ≤ ns.length, (∃ e, fs (absPath (ns.take k)) = .error e) ∧
      (∀ i < k, ∃ st, fs (absPath (ns.take i)) = .ok st ∧ DirOrLink st) ∧
      (call.explain env pf p .enoent (some (absPath ns)) wd).explained =
        some ((if k < ns.length then lit "directory '" else lit "file '") ++
          absPath (ns.take k) ++ lit "' does not exist") := by
  have hwalks : call.walks env.getuid .enoent = true := by rcases hcall with rfl | rfl <;> rfl
  rw [Explainer.explained_of_walks hwalks]
  obtain ⟨k, hk, he, hbefore, htext⟩ := explainPathError_enoent hcore hfs hres hmiss pf p
    call.pathFlags call.mode wd
  exact ⟨k, hk, ⟨_, he⟩, hbefore, htext⟩

/-- `/home` is missing, and named when `/home/bob` is asked for. -/
theorem explain_enoent_first_missing_treeHost :
    (Explainer.lstat.explain (treeHost (treeOf [])) .initial ⟨0⟩ .enoent (some (absPath [home, bob]))
      .start).explained = some (lit "directory '/home' does not exist") := by
  have hans := treeHost_answers (treeOf [])
  obtain ⟨k, hk, ⟨e, he⟩, hbefore, htext⟩ := explain_enoent_first_missing
    (treeHost_laws (treeOf []) _) (treeHost_static _) (hans.leftToRight [home, bob])
    ((hans _).trans rfl) (Or.inl rfl) .initial ⟨0⟩ .start
  have h0 : k ≠ 0 := by
    rintro rfl
    rw [namesOf_absPath] at he
    cases he
  have h2 : k < 2 := by
    by_contra hge
    obtain ⟨st, hst, -⟩ := hbefore 1 (by omega)
    rw [namesOf_absPath] at hst
    cases hst
  obtain rfl : k = 1 := by omega
  rw [htext]
  decide

/-! ## ENOTDIR -/

/-- The walk ends at the first prefix that is neither a directory nor a symlink. -/
theorem explainPathError_notDir (hcore : CoreLaws env (absPath ns)) (hfs : Static env fs)
    {j : Nat} (hj : j < ns.length)
    (hpre : ∀ i < j, ∃ st, fs (absPath (ns.take i)) = .ok st ∧ DirOrLink st) {st : Stat}
    (hst : fs (absPath (ns.take j)) = .ok st) (hty : ¬ DirOrLink st) (pf : Platform w) (p : Pool)
    {errErrno : Errno} (herr : errErrno ≠ .enametoolong) (flags mode : UInt32) (wd : World) :
    (explainPathError env pf (some p) errErrno (some (absPath ns)) flags mode wd).1 =
      some (lit "path '" ++ absPath (ns.take j) ++ lit "' does not refer to a directory") := by
  have hnot : ¬ ∃ st', fs (absPath (ns.take j)) = .ok st' ∧ DirOrLink st' := by
    rintro ⟨st', hst', hty'⟩
    rw [hst] at hst'
    cases hst'
    exact hty hty'
  have hend := explainPathError_endsAt hcore hfs hj.le hpre (Or.inr hnot) pf p herr flags mode wd
  generalize (explainPathError env pf (some p) errErrno (some (absPath ns)) flags mode wd).1 =
    explained at hend ⊢
  cases hend with
  | dirLookup _ he =>
    rw [hst] at he
    cases he
  | notDir _ _ _ => simp
  | fileLookup heq _ => omega
  | leaf heq _ _ => omega
  | leafEacces heq _ _ _ _ => omega

theorem describeGeneric_begins (syscall : CStr) :
    lit "the entropic" <+: describeGeneric env syscall := by
  simp only [describeGeneric, pstrcat, List.cons_append, catArgs_some]
  exact List.prefix_append_of_prefix (by decide)

/-- The other three have no case for ENOTDIR. -/
theorem explained_enotdir_generic {call : Explainer} (hne : call ≠ .chroot) (pf : Platform w)
    (p : Pool) (path : CStr) (wd : World) :
    ∃ syscall, (call.explain env pf p .enotdir (some path) wd).explained =
      some (describeGeneric env syscall) := by
  cases call with
  | chroot => exact absurd rfl hne
  | lstat => exact ⟨lit "lstat(2)", rfl⟩
  | stat => exact ⟨lit "stat(2)", rfl⟩
  | unlink => exact ⟨lit "unlink(2)", rfl⟩

/-- **ENOTDIR.**  All four calls fail on a path through a file that is no
directory; the chroot explainer alone says so. -/
theorem explain_enotdir_iff (hcore : CoreLaws env (absPath ns)) (hfs : Static env fs)
    (ht : Answers fs t) {j : Nat} (hj : j < ns.length)
    (hpre : ∀ i < j, ∃ n, t.node (ns.take i) = some n ∧ Inode.isDir n = true ∧ n.search = true)
    {n : FsNode} (hn : t.node (ns.take j) = some n) (hfile : Inode.isDir n = false)
    (call : Explainer) (pf : Platform w) (p : Pool) (wd : World) :
    callError t ns call = some .enotdir ∧
    ((call.explain env pf p .enotdir (some (absPath ns)) wd).explained =
        some (lit "path '" ++ absPath (ns.take j) ++ lit "' does not refer to a directory") ↔
      call = .chroot) := by
  have hres := resolve_take_of_nodes hj.le hpre hn
  constructor
  · rw [callError_error (resolve_notDir_iff.2 ⟨j, hj, n, hres, hfile⟩)]
    rfl
  constructor
  · intro h
    by_contra hne
    obtain ⟨syscall, hgen⟩ := explained_enotdir_generic hne pf p (absPath ns) wd
    rw [hgen, Option.some.injEq] at h
    have hpath : lit "path '" <+:
        lit "path '" ++ absPath (ns.take j) ++ lit "' does not refer to a directory" := by
      rw [List.append_assoc]
      exact List.prefix_append _ _
    exact ne_of_prefixes (by decide) (by decide) (describeGeneric_begins syscall) hpath h
  · rintro rfl
    rw [Explainer.explained_of_walks (by rfl)]
    have hst : fs (absPath (ns.take j)) = .ok n.stat := by rw [ht, lstatTree_ok hres]
    have hty : ¬ DirOrLink n.stat := by
      rw [dirOrLink_stat, hfile]
      exact Bool.false_ne_true
    refine explainPathError_notDir hcore hfs hj (fun i hi => ?_) hst hty pf p (by simp) _ _ _
    obtain ⟨m, hm, hd, -⟩ := hpre i hi
    refine ⟨m.stat, ?_, (dirOrLink_stat m).2 hd⟩
    rw [ht, lstatTree_ok (resolve_take_of_nodes (by omega) (fun i' hi' => hpre i' (by omega)) hm)]

/-- `/home` is a file. -/
def fileHome : FsTree := treeOf [([home], aFile)]

theorem explain_enotdir_iff_fileHome :
    (Explainer.lstat.explain (treeHost fileHome) .initial ⟨0⟩ .enotdir (some (absPath [home, bob]))
      .start).explained ≠
      some (lit "path '" ++ absPath [home] ++ lit "' does not refer to a directory") := by
  have hpre : ∀ i < 1, ∃ n, fileHome.node ([home, bob].take i) = some n ∧ Inode.isDir n = true ∧
      n.search = true := by
    intro i hi
    obtain rfl : i = 0 := by omega
    exact ⟨aDir true true, rfl, rfl, rfl⟩
  have hiff := (explain_enotdir_iff (treeHost_laws fileHome _) (treeHost_static _)
    (treeHost_answers _) (by decide) hpre (show _ = some aFile from rfl) rfl .lstat .initial ⟨0⟩
    .start).2
  intro h
  exact absurd (hiff.1 h) (by decide)

/-- The four explainers do not agree on ENOTDIR. -/
theorem enotdir_unnamed :
    ¬ ∀ (t : FsTree) (ns : List Name) (j : Nat) (n : FsNode), j < ns.length →
      (∀ i < j, ∃ n, t.node (ns.take i) = some n ∧ Inode.isDir n = true ∧ n.search = true) →
      t.node (ns.take j) = some n → Inode.isDir n = false →
      ∀ call : Explainer, (call.explain (treeHost t) .initial ⟨0⟩ .enotdir (some (absPath ns))
        .start).explained =
          some (lit "path '" ++ absPath (ns.take j) ++ lit "' does not refer to a directory") := by
  intro h
  have hstat := h fileHome [home, bob] 1 aFile (by decide) (fun i hi => by
    obtain rfl : i = 0 := by omega
    exact ⟨aDir true true, rfl, rfl, rfl⟩) rfl rfl .stat
  exact absurd hstat (by decide)

/-- A leaf that exists behind directories and symlinks accounts for nothing but
an EACCES. -/
theorem explainPathError_leaf (hcore : CoreLaws env (absPath ns)) (hfs : Static env fs)
    (hpre : ∀ i < ns.length, ∃ st, fs (absPath (ns.take i)) = .ok st ∧ DirOrLink st) {st : Stat}
    (hst : fs (absPath ns) = .ok st) (pf : Platform w) (p : Pool) {errErrno : Errno}
    (herr : errErrno ≠ .enametoolong) (hacc : errErrno ≠ .eacces) (flags mode : UInt32)
    (wd : World) :
    (explainPathError env pf (some p) errErrno (some (absPath ns)) flags mode wd).1 = none := by
  have hend := explainPathError_endsAt hcore hfs (Nat.le_refl _) hpre (Or.inl rfl) pf p herr flags
    mode wd
  generalize (explainPathError env pf (some p) errErrno (some (absPath ns)) flags mode wd).1 =
    explained at hend ⊢
  cases hend with
  | dirLookup hlt _ => omega
  | fileLookup _ he =>
    rw [he] at hst
    cases hst
  | notDir hlt _ _ => omega
  | leaf _ _ _ => rfl
  | leafEacces _ _ herr _ _ => exact absurd herr hacc

/-- **A chroot target that is no directory.**  `chroot(2)` fails with ENOTDIR and
nothing is said about it: the flag and the mode that ask for a directory are not
looked at. -/
theorem explain_chroot_leaf_unexplained (hcore : CoreLaws env (absPath ns)) (hfs : Static env fs)
    (ht : Answers fs t)
    (hpre : ∀ i < ns.length, ∃ n, t.node (ns.take i) = some n ∧ Inode.isDir n = true ∧
      n.search = true)
    {n : FsNode} (hn : t.node ns = some n) (hfile : Inode.isDir n = false) (pf : Platform w)
    (p : Pool) (wd : World) :
    callError t ns .chroot = some .enotdir ∧
    (explainChrootError env pf p .enotdir (some (absPath ns)) wd).explained = none := by
  have hwhole : ns.take ns.length = ns := List.take_length
  have hres : resolve t ns = .ok n := by
    have h := resolve_take_of_nodes (Nat.le_refl _) hpre (hwhole.symm ▸ hn)
    rwa [hwhole] at h
  constructor
  · unfold callError
    simp [hres, hfile]
  · show (Explainer.chroot.explain env pf p .enotdir (some (absPath ns)) wd).explained = none
    rw [Explainer.explained_of_walks (by rfl)]
    have hleaf : fs (absPath ns) = .ok n.stat := by rw [ht, lstatTree_ok hres]
    refine explainPathError_leaf hcore hfs (fun i hi => ?_) hleaf pf p (by simp) (by simp) _ _ _
    obtain ⟨m, hm, hd, -⟩ := hpre i hi
    refine ⟨m.stat, ?_, (dirOrLink_stat m).2 hd⟩
    rw [ht, lstatTree_ok (resolve_take_of_nodes hi.le (fun i' hi' => hpre i' (by omega)) hm)]

theorem explain_chroot_leaf_unexplained_fileHome :
    callError fileHome [home] .chroot = some .enotdir ∧
    (explainChrootError (treeHost fileHome) .initial ⟨0⟩ .enotdir (some (absPath [home]))
      .start).explained = none := by
  have hpre : ∀ i < [home].length, ∃ n, fileHome.node ([home].take i) = some n ∧
      Inode.isDir n = true ∧ n.search = true := by
    intro i hi
    obtain rfl : i = 0 := by simpa using hi
    exact ⟨aDir true true, rfl, rfl, rfl⟩
  exact explain_chroot_leaf_unexplained (treeHost_laws fileHome _) (treeHost_static _)
    (treeHost_answers _) hpre (show _ = some aFile from rfl) rfl .initial ⟨0⟩ .start

/-- A chroot to the file `/home` has no explanation. -/
theorem chroot_to_file_unexplained :
    ¬ ∀ (t : FsTree) (ns : List Name) (n : FsNode),
      (∀ i < ns.length, ∃ n, t.node (ns.take i) = some n ∧ Inode.isDir n = true ∧
        n.search = true) →
      t.node ns = some n → Inode.isDir n = false →
      ∃ text, (explainChrootError (treeHost t) .initial ⟨0⟩ .enotdir (some (absPath ns))
        .start).explained = some text := by
  intro h
  obtain ⟨text, htext⟩ := h fileHome [home] aFile (fun i hi => by
    obtain rfl : i = 0 := by simpa using hi
    exact ⟨aDir true true, rfl, rfl, rfl⟩) rfl rfl
  have hnone : (explainChrootError (treeHost fileHome) .initial ⟨0⟩ .enotdir (some (absPath [home]))
      .start).explained = none := by decide
  rw [hnone] at htext
  cases htext

/-! ## EACCES -/

/-- `q` is a directory of the tree that the user may not search. -/
def UnsearchableDir (t : FsTree) (q : CStr) : Prop :=
  ∃ ms n, q = absPath ms ∧ t.node ms = some n ∧ Inode.isDir n = true ∧ n.search = false

/-- The text is true of the tree: what it calls "not searchable" is a directory
the user may not search, and it calls the containing directory "not writable"
only if the parent of `ns` is not. -/
structure TrueOf (t : FsTree) (ns : List Name) (text : CStr) : Prop where
  searchable : ∀ q, text = lit "directory '" ++ q ++ lit "' is not searchable by the user" ∨
    text = lit "file '" ++ q ++ lit "' is not searchable by the user" → UnsearchableDir t q
  writable : lit "directory containing '" <+: text → parentUnwritable t ns = true

/-- The prefix after the directory that may not be searched deserves the blame:
it is such a directory itself, or, for the leaf of an `unlink`, lies in a
directory that is not writable. -/
def BlameFits (t : FsTree) (ns : List Name) (call : Explainer) : Prop :=
  ∀ j < ns.length,
    (∃ n, resolve t (ns.take j) = .ok n ∧ Inode.isDir n = true ∧ n.search = false) →
    if j + 1 < ns.length ∨ call ≠ .unlink then UnsearchableDir t (absPath (ns.take (j + 1)))
    else parentUnwritable t ns = true

/-- How the texts of an EACCES begin that call a path not searchable. -/
def SearchKind (kind : CStr) : Prop := kind = lit "directory '" ∨ kind = lit "file '"

theorem SearchKind.not_containing {kind : CStr} (h : SearchKind kind) (text : CStr) :
    ¬ lit "directory containing '" <+: kind ++ text := by
  intro hpre
  rcases h with rfl | rfl
  · exact absurd rfl (ne_of_prefixes (a := lit "directory '") (b := lit "directory containing '")
      (by decide) (by decide) (List.prefix_append _ _) hpre)
  · exact absurd rfl (ne_of_prefixes (a := lit "file '") (b := lit "directory containing '")
      (by decide) (by decide) (List.prefix_append _ _) hpre)

theorem SearchKind.append_inj {a b q q' : CStr} (ha : SearchKind a) (hb : SearchKind b)
    (h : a ++ q = b ++ q') : q = q' := by
  rcases ha with rfl | rfl <;> rcases hb with rfl | rfl
  · exact List.append_cancel_left h
  · exact absurd h (ne_of_prefixes (a := lit "directory '") (b := lit "file '") (by decide)
      (by decide) (List.prefix_append _ _) (List.prefix_append _ _))
  · exact absurd h (ne_of_prefixes (a := lit "file '") (b := lit "directory '") (by decide)
      (by decide) (List.prefix_append _ _) (List.prefix_append _ _))
  · exact List.append_cancel_left h

theorem trueOf_unsearchable {kind : CStr} (hkind : SearchKind kind) (q : CStr) :
    TrueOf t ns (kind ++ q ++ lit "' is not searchable by the user") ↔ UnsearchableDir t q := by
  constructor
  · intro h
    refine h.searchable q ?_
    rcases hkind with rfl | rfl
    · exact Or.inl rfl
    · exact Or.inr rfl
  intro h
  refine ⟨fun q' heq => ?_, fun hpre => ?_⟩
  · have hq : q = q' := by
      rcases heq with heq | heq
      · exact hkind.append_inj (Or.inl rfl) (List.append_cancel_right heq)
      · exact hkind.append_inj (Or.inr rfl) (List.append_cancel_right heq)
    exact hq ▸ h
  · rw [List.append_assoc] at hpre
    exact absurd hpre (hkind.not_containing _)

theorem trueOf_containing {text : CStr} (h : lit "directory containing '" <+: text) :
    TrueOf t ns text ↔ parentUnwritable t ns = true := by
  refine ⟨fun ht => ht.writable h, fun hw => ⟨?_, fun _ => hw⟩⟩
  rintro q (rfl | rfl)
  · rw [List.append_assoc] at h
    exact absurd h (SearchKind.not_containing (Or.inl rfl) _)
  · rw [List.append_assoc] at h
    exact absurd h (SearchKind.not_containing (Or.inr rfl) _)

theorem eaccesLeafText_unlink (path : CStr) :
    lit "directory containing '" <+: eaccesLeafText Explainer.unlink.pathFlags path := by
  have hflags : ¬ Explainer.unlink.pathFlags &&& explainPathFlWantSearch ≠ 0 := by decide
  unfold eaccesLeafText
  rw [if_neg hflags, List.append_assoc]
  exact List.prefix_append _ _

/-- Below a directory that may not be searched the walk ends one prefix later. -/
theorem explainPathError_unsearchable (hcore : CoreLaws env (absPath ns)) (hfs : Static env fs)
    (ht : Answers fs t) {j : Nat} (hj : j < ns.length) {n : FsNode}
    (hn : resolve t (ns.take j) = .ok n) (hd : Inode.isDir n = true) (hs : n.search = false)
    (pf : Platform w) (p : Pool) {errErrno : Errno} (herr : errErrno ≠ .enametoolong)
    (flags mode : UInt32) (wd : World) :
    (explainPathError env pf (some p) errErrno (some (absPath ns)) flags mode wd).1 =
      some (if j + 1 < ns.length then
        lit "directory '" ++ absPath (ns.take (j + 1)) ++ lit "' is not searchable by the user"
      else eaccesLeafText flags (absPath ns)) := by
  have hpre : ∀ i < j + 1, ∃ st, fs (absPath (ns.take i)) = .ok st ∧ DirOrLink st := by
    intro i hi
    rcases Nat.lt_or_eq_of_le (Nat.le_of_lt_succ hi) with hlt | rfl
    · obtain ⟨m, hm, hmd, -⟩ := resolve_take_lt hlt hj.le hn
      exact ⟨m.stat, by rw [ht, lstatTree_ok hm], (dirOrLink_stat m).2 hmd⟩
    · exact ⟨n.stat, by rw [ht, lstatTree_ok hn], (dirOrLink_stat n).2 hd⟩
  have hfail : fs (absPath (ns.take (j + 1))) = .error .eacces := by
    rw [ht, lstatTree_error (resolve_take_of_enter (Nat.lt_succ_self j) hj hn
      (enter_unsearchable hd hs))]
    rfl
  have hnot : ¬ ∃ st, fs (absPath (ns.take (j + 1))) = .ok st ∧ DirOrLink st := by
    rintro ⟨st, hst, -⟩
    rw [hfail] at hst
    cases hst
  have hwhole : ns.take ns.length = ns := List.take_length
  have hle : j + 1 ≤ ns.length := hj
  have hend := explainPathError_endsAt hcore hfs hle hpre (Or.inr hnot) pf p herr flags mode wd
  generalize (explainPathError env pf (some p) errErrno (some (absPath ns)) flags mode wd).1 =
    explained at hend ⊢
  cases hend with
  | @dirLookup e hlt he =>
    rw [hfail] at he
    cases he
    simp [describeDirLookup, hlt]
  | @fileLookup e heq he =>
    rw [heq, hwhole, he] at hfail
    cases hfail
    have : ¬ j + 1 < ns.length := by omega
    simp [describeFileLookup, this]
  | notDir _ hst _ =>
    rw [hfail] at hst
    cases hst
  | leaf heq hst _ =>
    rw [heq, hwhole, hst] at hfail
    cases hfail
  | leafEacces heq hst _ _ _ =>
    rw [heq, hwhole, hst] at hfail
    cases hfail

theorem describeLeaf_begins (path : CStr) (flags : UInt32) (parent : Option CStr)
    (res : Except Errno Stat) :
    eaccesLeafText flags path <+: describeLeaf env path flags parent res := by
  cases res with
  | error e => simp [describeLeaf]
  | ok st =>
    simp only [describeLeaf, describeEaccesFile_eq, describeParent, pstrcat, List.cons_append,
      catArgs_some]
    exact List.prefix_append _ _

/-- When the path resolves, an EACCES is put down to the leaf. -/
theorem explainPathError_resolved (hcore : CoreLaws env (absPath ns)) (hfs : Static env fs)
    (ht : Answers fs t) {n : FsNode} (hn : resolve t ns = .ok n) (pf : Platform w) (p : Pool)
    (flags mode : UInt32) (wd : World) :
    ∃ text,
      (explainPathError env pf (some p) .eacces (some (absPath ns)) flags mode wd).1 = some text ∧
      eaccesLeafText flags (absPath ns) <+: text := by
  have herr : Errno.eacces ≠ .enametoolong := by decide
  have hwhole : resolve t (ns.take ns.length) = .ok n := by rw [List.take_length, hn]
  have hpre : ∀ i < ns.length, ∃ st, fs (absPath (ns.take i)) = .ok st ∧ DirOrLink st := by
    intro i hi
    obtain ⟨m, hm, hd, -⟩ := resolve_take_lt hi (Nat.le_refl _) hwhole
    exact ⟨m.stat, by rw [ht, lstatTree_ok hm], (dirOrLink_stat m).2 hd⟩
  have hend := explainPathError_endsAt hcore hfs (Nat.le_refl _) hpre (Or.inl rfl) pf p herr flags
    mode wd
  generalize (explainPathError env pf (some p) .eacces (some (absPath ns)) flags mode wd).1 =
    explained at hend ⊢
  cases hend with
  | dirLookup hlt _ => omega
  | fileLookup _ he =>
    rw [ht, lstatTree_ok hn] at he
    cases he
  | notDir hlt _ _ => omega
  | leaf _ _ herr => exact absurd rfl herr
  | leafEacces _ _ _ parent res => exact ⟨_, rfl, describeLeaf_begins _ _ _ _⟩

/-- Only one prefix is a directory that may not be searched. -/
theorem unsearchable_unique {j j' : Nat} (hj : j ≤ ns.length) (hj' : j' ≤ ns.length) {n n' : FsNode}
    (hn : resolve t (ns.take j) = .ok n) (hs : n.search = false)
    (hn' : resolve t (ns.take j') = .ok n') (hs' : n'.search = false) : j' = j := by
  rcases Nat.lt_trichotomy j' j with hlt | heq | hgt
  · obtain ⟨m, hm, -, hsm⟩ := resolve_take_lt hlt hj hn
    rw [hn'] at hm
    cases hm
    exact absurd (hs'.symm.trans hsm) Bool.false_ne_true
  · exact heq
  · obtain ⟨m, hm, -, hsm⟩ := resolve_take_lt hgt hj' hn'
    rw [hn] at hm
    cases hm
    exact absurd (hs.symm.trans hsm) Bool.false_ne_true

/-- What the blame comes down to below a directory that may not be searched. -/
theorem blameFits_iff {j : Nat} (hj : j < ns.length) {n : FsNode} (hn : resolve t (ns.take j) = .ok n)
    (hd : Inode.isDir n = true) (hs : n.search = false) (call : Explainer) :
    BlameFits t ns call ↔
      if j + 1 < ns.length ∨ call ≠ .unlink then UnsearchableDir t (absPath (ns.take (j + 1)))
      else parentUnwritable t ns = true := by
  constructor
  · intro h
    exact h j hj ⟨n, hn, hd, hs⟩
  · rintro h j' hj' ⟨n', hn', -, hs'⟩
    rw [unsearchable_unique hj.le hj'.le hn hs hn' hs']
    exact h

/-- When the path resolves no prefix may not be searched, and nothing is blamed. -/
theorem blameFits_of_resolve {n : FsNode} (hn : resolve t ns = .ok n) (call : Explainer) :
    BlameFits t ns call := by
  rintro j hj ⟨m, hm, -, hs⟩
  have hwhole : resolve t (ns.take ns.length) = .ok n := by rw [List.take_length, hn]
  obtain ⟨m', hm', -, hs'⟩ := resolve_take_lt hj (Nat.le_refl _) hwhole
  rw [hm] at hm'
  cases hm'
  exact absurd (hs.symm.trans hs') Bool.false_ne_true

/-- **EACCES.**  The explanation is true of the tree exactly when the blame
happens to fit the prefix it falls on. -/
theorem explain_eacces_sound_iff (hcore : CoreLaws env (absPath ns)) (hfs : Static env fs)
    (ht : Answers fs t) {call : Explainer} (hcall : call ≠ .chroot)
    (hfail : callError t ns call = some .eacces) (pf : Platform w) (p : Pool) (wd : World) :
    (∃ text, (call.explain env pf p .eacces (some (absPath ns)) wd).explained = some text ∧
      TrueOf t ns text) ↔ BlameFits t ns call := by
  rw [Explainer.explained_of_walks (by cases call <;> rfl)]
  cases hres : resolve t ns with
  | error o =>
    rw [callError_error hres, Option.some.injEq] at hfail
    have ho : o = .unsearchable := obstacleErrno_injective hfail
    subst ho
    obtain ⟨j, hj, n, hn, hd, hs⟩ := resolve_unsearchable_iff.1 hres
    rw [explainPathError_unsearchable hcore hfs ht hj hn hd hs pf p (by simp),
      blameFits_iff hj hn hd hs]
    simp only [Option.some.injEq, exists_eq_left']
    by_cases hlt : j + 1 < ns.length
    · rw [if_pos hlt, if_pos (Or.inl hlt), trueOf_unsearchable (Or.inl rfl)]
    · have hwhole : ns.take (j + 1) = ns := List.take_of_length_le (by omega)
      rw [if_neg hlt]
      cases call with
      | chroot => exact absurd rfl hcall
      | unlink =>
        rw [if_neg (by simp [hlt])]
        exact trueOf_containing (eaccesLeafText_unlink _)
      | _ =>
        rw [if_pos (Or.inr (by simp)), hwhole]
        exact trueOf_unsearchable (Or.inr rfl) _
  | ok n =>
    obtain ⟨text, htext, hpre⟩ := explainPathError_resolved hcore hfs ht hres pf p
      call.pathFlags call.mode wd
    obtain ⟨rfl, hwr⟩ := callError_resolved hres hcall hfail
    have hcont : lit "directory containing '" <+: text := (eaccesLeafText_unlink _).trans hpre
    rw [htext]
    simp only [Option.some.injEq, exists_eq_left', trueOf_containing hcont, hwr, true_iff]
    exact blameFits_of_resolve hres _

/-- `/home` may not be searched, `/home/bob` may. -/
def lockedHome : FsTree := treeOf [([home], aDir false false), ([home, bob], aDir true true)]

theorem lockedHome_explained :
    (Explainer.lstat.explain (treeHost lockedHome) .initial ⟨0⟩ .eacces
      (some (absPath [home, bob, report])) .start).explained =
      some (lit "directory '" ++ absPath [home, bob] ++ lit "' is not searchable by the user") := by
  decide

theorem lockedHome_not_trueOf :
    ¬ TrueOf lockedHome [home, bob, report]
      (lit "directory '" ++ absPath [home, bob] ++ lit "' is not searchable by the user") := by
  rw [trueOf_unsearchable (Or.inl rfl)]
  rintro ⟨ms, n, hms, hn, -, hs⟩
  rw [← absPath_injective hms] at hn
  have hbob : lockedHome.node [home, bob] = some (aDir true true) := by rfl
  rw [hbob] at hn
  cases hn
  cases hs

theorem explain_eacces_sound_iff_lockedHome : ¬ BlameFits lockedHome [home, bob, report] .lstat := by
  intro hfits
  obtain ⟨text, htext, htrue⟩ := (explain_eacces_sound_iff (treeHost_laws lockedHome _)
    (treeHost_static _) (treeHost_answers _) (by decide) (by decide) .initial ⟨0⟩ .start).2 hfits
  rw [lockedHome_explained] at htext
  cases htext
  exact lockedHome_not_trueOf htrue

/-- EACCES is put down to directories that the user may search. -/
theorem eacces_blames_searchable :
    ¬ ∀ (t : FsTree) (ns : List Name) (call : Explainer), call ≠ .chroot →
      callError t ns call = some .eacces →
      ∃ text, (call.explain (treeHost t) .initial ⟨0⟩ .eacces (some (absPath ns)) .start).explained =
        some text ∧ TrueOf t ns text := by
  intro h
  obtain ⟨text, htext, htrue⟩ := h lockedHome [home, bob, report] .lstat (by decide) (by decide)
  rw [lockedHome_explained] at htext
  cases htext
  exact lockedHome_not_trueOf htrue

end Explain
