import ModExplain.Blame

/-!
# What is said about the parent directory

When the path itself resolves, EACCES is about its last component: a directory
that `chroot` may not search, or a directory that `unlink` may not write in.
Then the explanation is right about all it says (`explain_leaf_eacces`).
-/

namespace Explain

open Namei

variable {w : Nat} {env : Env w} {ns : List Name} {n : Name} {fs : CStr → Except Errno Stat}
  {t : FsTree}

/-- The parent directory in an explanation. -/
def parentText (env : Env w) (path : CStr) (st : Stat) : CStr :=
  lit "; parent directory '" ++ path ++ lit "' has perms " ++ mode2s st.stMode ++
    lit ", and is owned by UID " ++ env.prUid2str st.stUid ++ lit ", GID " ++ env.prGid2str st.stGid

/-- A path that resolves is walked to its end. -/
theorem least_stop_of_resolve (hcore : CoreLaws env (absPath ns)) (hfs : Static env fs)
    (ht : Answers fs t) {i : FsNode} (hi : resolve t ns = .ok i) {wd : World} {k : Nat}
    (hk : k < (root :: ns.map Name.bytes).length)
    (hstop : StopsAt (root :: ns.map Name.bytes).length (answerAt env (root :: ns.map Name.bytes) wd) k) :
    k = ns.length := by
  have hlen : (root :: ns.map Name.bytes).length = ns.length + 1 := by simp
  rw [hlen] at hk hstop
  have hwhole : resolve t (ns.take ns.length) = .ok i := by rw [List.take_length, hi]
  by_contra hne
  have hlt : k < ns.length := by omega
  obtain ⟨m, hm, hd, -⟩ := resolve_take_lt hlt (Nat.le_refl _) hwhole
  have hans : answerAt env (root :: ns.map Name.bytes) wd k = .ok m.stat := by
    rw [answerAt_absPath hcore.joins hfs wd hlt.le, ht, lstatTree_ok hm]
  exact not_dirOrLink_of_stopsAt hstop hans (by omega) (Or.inl hd)

/-- A directory that resolves is refused to `chroot` when it may not be searched. -/
theorem callError_chroot {ns : List Name} {i : FsNode} (hi : resolve t ns = .ok i)
    (hfail : callError t ns .chroot = some .eacces) : Inode.isDir i = true ∧ i.search = false := by
  unfold callError at hfail
  rw [hi] at hfail
  by_cases hd : Inode.isDir i = true
  · refine ⟨hd, ?_⟩
    by_contra hs
    dsimp only at hfail
    rw [if_pos hd, if_pos (by simpa using hs)] at hfail
    cases hfail
  · dsimp only at hfail
    rw [if_neg hd] at hfail
    cases hfail

/-- The whole of what EACCES says about a path that resolves. -/
theorem explainPathError_leaf_eacces (hcore : CoreLaws env (absPath (ns ++ [n])))
    (hfs : Static env fs) (ht : Answers fs t) {i d : FsNode} (hi : resolve t (ns ++ [n]) = .ok i)
    (hd : resolve t ns = .ok d) (pf : Platform w) (p : Pool) (flags mode : UInt32) (wd : World) :
    (explainPathError env pf (some p) .eacces (some (absPath (ns ++ [n]))) flags mode wd).1 =
      some (eaccesLeafText flags (absPath (ns ++ [n])) ++ parentText env (absPath ns) d.stat) := by
  have herr : Errno.eacces ≠ .enametoolong := by decide
  obtain ⟨k, hk, hleast, hr⟩ := @explainPathError_eq_haltResult w env pf .eacces
    (absPath (ns ++ [n])) herr p flags mode wd
  rw [pathSplit_absPath hcore] at hk hleast hr
  have hlast : k = ns.length + 1 := by
    rw [least_stop_of_resolve hcore hfs ht hi hk hleast.1]
    simp
  subst hlast
  have hwhole : (ns ++ [n]).take (ns.length + 1) = ns ++ [n] := List.take_of_length_le (by simp)
  have hleaf : prefixAt env (root :: (ns ++ [n]).map Name.bytes) (ns.length + 1) =
      absPath (ns ++ [n]) := by
    rw [prefixAt_absPath hcore.joins _ (by simp), hwhole]
  have hparent : prefixAt env (root :: (ns ++ [n]).map Name.bytes) ns.length = absPath ns := by
    rw [prefixAt_absPath hcore.joins _ (by simp)]
    simp
  have hans (wd : World) : answerAt env (root :: (ns ++ [n]).map Name.bytes) wd (ns.length + 1) =
      .ok i.stat := by
    rw [answerAt_absPath hcore.joins hfs wd (by simp), ht, hwhole, lstatTree_ok hi]
  rw [hr, haltResult_leaf_eacces (not_tooLong herr) (hans _) (by simp) rfl, hleaf]
  have hprev : parentOf env (root :: (ns ++ [n]).map Name.bytes) (ns.length + 1) =
      some (absPath ns) := congrArg some hparent
  rw [hprev, hfs, ht, lstatTree_ok hd]
  simp [describeLeaf, parentText]

/-- **EACCES at the end of the path.**  When the path resolves and `chroot` or
`unlink` is refused, the explanation names the path, what was not allowed, and the
directory it lies in with its permissions and owner, and all of it is so: the
chroot target is a directory that may not be searched, the directory `unlink`
would have to write in may not be written in. -/
theorem explain_leaf_eacces (hcore : CoreLaws env (absPath (ns ++ [n]))) (hfs : Static env fs)
    (ht : Answers fs t) {i : FsNode} (hi : resolve t (ns ++ [n]) = .ok i) {call : Explainer}
    (hfail : callError t (ns ++ [n]) call = some .eacces) (pf : Platform w) (p : Pool) (wd : World) :
    ∃ d, resolve t ns = .ok d ∧ Inode.isDir d = true ∧ d.search = true ∧
      (call.explain env pf p .eacces (some (absPath (ns ++ [n]))) wd).explained =
        some (eaccesLeafText call.pathFlags (absPath (ns ++ [n])) ++
          parentText env (absPath ns) d.stat) ∧
      (call = .chroot ∧ UnsearchableDir t (absPath (ns ++ [n])) ∨
        call = .unlink ∧ d.write = false) := by
  obtain ⟨d, hd, hisdir, hsearch⟩ := resolve_snoc_ok hi
  refine ⟨d, hd, hisdir, hsearch, ?_, ?_⟩
  · rw [Explainer.explained_of_walks (by cases call <;> rfl)]
    exact explainPathError_leaf_eacces hcore hfs ht hi hd pf p call.pathFlags call.mode wd
  · by_cases hcall : call = .chroot
    · subst hcall
      obtain ⟨hidir, hisearch⟩ := callError_chroot hi hfail
      exact Or.inl ⟨rfl, ns ++ [n], i, rfl, node_of_resolve hi, hidir, hisearch⟩
    · obtain ⟨rfl, hwrite⟩ := callError_resolved hi hcall hfail
      refine Or.inr ⟨rfl, ?_⟩
      rw [parentUnwritable, List.dropLast_concat, node_of_resolve hd] at hwrite
      simpa using hwrite

/-- A report in a home directory that may be searched and not written in. -/
def keptHome : FsTree := treeOf [([home], aDir true false), ([home, report], aFile)]

/-- The report cannot be removed, and its directory is named with its mode. -/
theorem explain_leaf_eacces_keptHome : ∃ d, keptHome.node [home] = some d ∧ d.write = false ∧
    (Explainer.unlink.explain (treeHost keptHome) .initial ⟨0⟩ .eacces
      (some (absPath [home, report])) .start).explained =
      some (eaccesLeafText Explainer.unlink.pathFlags (absPath [home, report]) ++
        parentText (treeHost keptHome) (absPath [home]) d.stat) := by
  obtain ⟨d, hd, -, -, htext, ⟨hcall, -⟩ | ⟨-, hwrite⟩⟩ :=
    @explain_leaf_eacces 64 (treeHost keptHome) [home] report _ keptHome (treeHost_laws keptHome _)
      (treeHost_static _) (treeHost_answers _) aFile rfl .unlink (by decide) .initial ⟨0⟩ .start
  · cases hcall
  · exact ⟨d, node_of_resolve hd, hwrite, htext⟩

end Explain
