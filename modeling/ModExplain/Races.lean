import ModExplain.LinkFs

/-!
# A filesystem that changes under the walk

The call failed some time ago, and the walk looks up one prefix after another
while others work on the filesystem: `T n` is the one the `n`-th lookup finds, with
symlinks or without.

    only removals: a path missing at the start is explained by a prefix that is
      missing when it is looked up, and from then on     (explain_enoent_removals)
    only creations: the explanation of a path that is not missing at the start
      is the one of the filesystem at the start              (explain_creations)
-/

namespace Explain

open Namei

variable {w : Nat} {env : Env w} {ns : List Name} {T : Nat → LinkFs}

/-! ## Freezing the answers -/

/-- The environment in which every lookup of a path gets the answer of `fs`. -/
def Env.frozen (env : Env w) (fs : CStr → Except Errno Stat) : Env w :=
  { env with
    lstat := fun k path =>
      match path with
      | some path => fs path
      | none => env.lstat k none }

theorem Env.frozen_static (env : Env w) (fs : CStr → Except Errno Stat) : Static (env.frozen fs) fs :=
  fun _ _ => rfl

theorem CoreLaws.frozen {v : CStr} (h : CoreLaws env v) (fs : CStr → Except Errno Stat) :
    CoreLaws (env.frozen fs) v :=
  ⟨h.writes, h.splits, h.joins⟩

section Frozen

variable {fs : CStr → Except Errno Stat} {errErrno : Errno} {path : CStr} {wd : World}

theorem prefixAt_frozen (cs : List CStr) (i : Nat) :
    prefixAt (env.frozen fs) cs i = prefixAt env cs i := by
  induction i with
  | zero => rfl
  | succ i ih =>
    show env.pdircat (prefixAt (env.frozen fs) cs i) _ = env.pdircat (prefixAt env cs i) _
    rw [ih]

theorem parentOf_frozen (cs : List CStr) (i : Nat) :
    parentOf (env.frozen fs) cs i = parentOf env cs i := by
  cases i with
  | zero => rfl
  | succ i => exact congrArg some (prefixAt_frozen cs i)

theorem answerAt_frozen (cs : List CStr) (i : Nat) :
    answerAt (env.frozen fs) cs wd i = fs (prefixAt env cs i) := by
  show fs (prefixAt (env.frozen fs) cs i) = _
  rw [prefixAt_frozen]

theorem halts_frozen {nameMax noTrunc : Long w} {cs : List CStr} {i : Nat}
    (hans : answerAt env cs wd i = fs (prefixAt env cs i)) :
    Halts (env.frozen fs) errErrno nameMax noTrunc cs wd i ↔
      Halts env errErrno nameMax noTrunc cs wd i := by
  unfold Halts StopsAt
  rw [answerAt_frozen, hans]

/-- Where two walks halt with the same answer they explain it alike. -/
theorem haltResult_frozen {nameMax noTrunc : Long w} {cs : List CStr} {flags : UInt32} {k : Nat}
    {lw lw' : World} (hans : answerAt env cs lw k = fs (prefixAt env cs k))
    (hparent : errErrno = .eacces → k = cs.length - 1 → ∀ q, parentOf env cs k = some q →
      env.lstat (lw.lstatCalls.length + (k + 1)) (some q) = fs q)
    (hcalls : lw'.lstatCalls = lw.lstatCalls) :
    (haltResult env errErrno flags nameMax noTrunc cs lw k).1 =
      (haltResult (env.frozen fs) errErrno flags nameMax noTrunc cs lw' k).1 := by
  by_cases hlong : TooLong errErrno nameMax noTrunc (cs.getD k [])
  · rw [haltResult_long hlong, haltResult_long hlong]
    rfl
  have hans' : answerAt (env.frozen fs) cs lw' k = answerAt env cs lw k := by
    rw [answerAt_frozen, hans]
  cases hst : answerAt env cs lw k with
  | error e =>
    rw [haltResult_error hlong hst, haltResult_error hlong (hans'.trans hst), prefixAt_frozen]
    split <;> cases e <;> rfl
  | ok st =>
    by_cases hlast : k = cs.length - 1
    · by_cases hacc : errErrno = .eacces
      · rw [haltResult_leaf_eacces hlong hst hlast hacc,
          haltResult_leaf_eacces hlong (hans'.trans hst) hlast hacc, prefixAt_frozen, parentOf_frozen,
          hcalls]
        have hsame : (env.frozen fs).lstat (lw.lstatCalls.length + (k + 1)) (parentOf env cs k) =
            env.lstat (lw.lstatCalls.length + (k + 1)) (parentOf env cs k) := by
          cases hq : parentOf env cs k with
          | none => rfl
          | some q => exact (hparent hacc hlast q hq).symm
        rw [hsame]
        cases env.lstat (lw.lstatCalls.length + (k + 1)) (parentOf env cs k) <;> rfl
      · rw [haltResult_leaf hlong hst hlast hacc, haltResult_leaf hlong (hans'.trans hst) hlast hacc]
    · rw [haltResult_notDir hlong hst hlast, haltResult_notDir hlong (hans'.trans hst) hlast,
        prefixAt_frozen]
      rfl

/-- **Only the answers count.**  Two walks of a path that get the same answers to
the lookups they make explain it alike, whenever the answers were given. -/
theorem explained_frozen
    (hans : ∀ i < (pathSplit env path).length,
      answerAt env (pathSplit env path) wd i = fs (prefixAt env (pathSplit env path) i))
    (hparent : errErrno = .eacces →
      ∀ q, parentOf env (pathSplit env path) ((pathSplit env path).length - 1) = some q →
        env.lstat (wd.lstatCalls.length + (pathSplit env path).length) (some q) = fs q)
    (pf : Platform w) (p : Pool) (flags mode : UInt32) :
    (explainPathError env pf (some p) errErrno (some path) flags mode wd).1 =
      (explainPathError (env.frozen fs) pf (some p) errErrno (some path) flags mode wd).1 := by
  by_cases hlong : PathTooLong env pf errErrno path
  · have hlong' : PathTooLong (env.frozen fs) pf errErrno path := hlong
    rw [explainPathError_of_long hlong, explainPathError_of_long hlong']
    rfl
  have hfits : ¬ PathTooLong (env.frozen fs) pf errErrno path := hlong
  obtain ⟨k, hk, hleast, lw, hlw, hr⟩ := explainPathError_eq_of_fits hlong p flags mode wd
  obtain ⟨k', hk', hleast', lw', hlw', hr'⟩ := explainPathError_eq_of_fits hfits p flags mode wd
  obtain rfl : k' = k := by
    apply Nat.le_antisymm
    · exact hleast'.2 ((halts_frozen (hans k hk)).2 hleast.1)
    · exact hleast.2 ((halts_frozen (hans k' hk')).1 hleast'.1)
  rw [hr, hr']
  refine haltResult_frozen ?_ (fun hacc hlast q hq => ?_) (hlw'.trans hlw.symm)
  · rw [answerAt_congr hlw]
    exact hans k' hk
  · rw [hlw, show k' + 1 = (pathSplit env path).length by omega]
    exact hparent hacc q (hlast ▸ hq)

end Frozen

/-! ## Histories of a filesystem -/

/-- The `n`-th lookup of a path finds the filesystem `T n`. -/
def Over (env : Env w) (T : Nat → LinkFs) : Prop :=
  ∀ n ns, env.lstat n (some (absPath ns)) = lstatLinks (T n) ns

/-- Everything `t` has is in `t'` too, unchanged. -/
structure LinkFs.Sub (t t' : LinkFs) : Prop where
  tree : Namei.Sub t.tree t'.tree
  maxLinks : t.maxLinks = t'.maxLinks

/-- From the `n`-th lookup on entries only go. -/
def OnlyRemovals (T : Nat → LinkFs) (n : Nat) : Prop := ∀ i j, n ≤ i → i ≤ j → (T j).Sub (T i)

/-- From the `n`-th lookup on what was there stays as it is. -/
def OnlyCreations (T : Nat → LinkFs) (n : Nat) : Prop := ∀ i, n ≤ i → (T n).Sub (T i)

/-- What a walk begun at the `n`-th lookup gets: the prefix of `i` names is looked
up `i` lookups later. -/
def seenFrom (T : Nat → LinkFs) (n : Nat) (path : CStr) : Except Errno Stat :=
  lstatLinks (T (n + (namesOf path).length)) (namesOf path)

theorem seenFrom_take (T : Nat → LinkFs) (n : Nat) {i : Nat} (hi : i ≤ ns.length) :
    seenFrom T n (absPath (ns.take i)) = lstatLinks (T (n + i)) (ns.take i) := by
  unfold seenFrom
  rw [namesOf_absPath, List.length_take, Nat.min_eq_left hi]

/-- The walk of a path in a history. -/
theorem answerAt_over (hcore : CoreLaws env (absPath ns)) (hT : Over env T) (wd : World) {i : Nat}
    (hi : i ≤ ns.length) :
    answerAt env (root :: ns.map Name.bytes) wd i =
      lstatLinks (T (wd.lstatCalls.length + i)) (ns.take i) := by
  unfold answerAt
  rw [prefixAt_absPath hcore.joins i hi, hT]

section Lookups

variable {t t' : LinkFs}

/-- With entries gone a path is missing, or nothing changed for it. -/
theorem lstatLinks_sub (h : t.Sub t') (ns : List Name) :
    lstatLinks t ns = .error .enoent ∨ lstatLinks t ns = lstatLinks t' ns := by
  have hlinks : t.links.Sub t'.links := ⟨h.tree, rfl⟩
  rcases lookup_sub hlinks t.maxLinks ns with hmiss | hsame
  · exact Or.inl (lstatLinks_error hmiss)
  · refine Or.inr ?_
    unfold lstatLinks
    rw [hsame, h.maxLinks]

/-- What stops a prefix stops the path. -/
theorem lstatLinks_take_error {i : Nat} (hi : i ≤ ns.length) {e : Errno}
    (h : lstatLinks t (ns.take i) = .error e) : lstatLinks t ns = .error e := by
  rw [← linkHost_answers] at h
  have hwhole := ((linkHost_answers t).leftToRight ns).persists i ns.length e hi (Nat.le_refl _) h
  rwa [namesOf_absPath, List.take_length] at hwhole

/-- Nothing lies below what is neither a directory nor a symlink. -/
theorem lstatLinks_below {i : Nat} (hi : i < ns.length) {st : Stat}
    (h : lstatLinks t (ns.take i) = .ok st) (hty : ¬ DirOrLink st) :
    lstatLinks t ns = .error .enotdir := by
  rw [← linkHost_answers] at h
  have hwhole := ((linkHost_answers t).leftToRight ns).notDir i ns.length st hi (Nat.le_refl _) h hty
  rwa [namesOf_absPath, List.take_length] at hwhole

end Lookups

/-- Missing, or as it was. -/
theorem OnlyRemovals.lstat {n : Nat} (h : OnlyRemovals T n) {i : Nat} (hi : n ≤ i) (p : List Name) :
    lstatLinks (T i) p = .error .enoent ∨ lstatLinks (T i) p = lstatLinks (T n) p :=
  lstatLinks_sub (h n i (Nat.le_refl n) hi) p

theorem OnlyCreations.lstat {n : Nat} (h : OnlyCreations T n) {i : Nat} (hi : n ≤ i) {p : List Name}
    (hp : lstatLinks (T n) p ≠ .error .enoent) : lstatLinks (T i) p = lstatLinks (T n) p :=
  ((lstatLinks_sub (h i hi) p).resolve_left hp).symm

/-- An error that is not walked for is explained without a lookup. -/
theorem explained_frozen_of_not_walks {fs : CStr → Except Errno Stat} {call : Explainer}
    {xerrno : Errno} (h : call.walks env.getuid xerrno = false) (pf : Platform w) (p : Pool)
    (path : Option CStr) (wd : World) :
    (call.explain env pf p xerrno path wd).explained =
      (call.explain (env.frozen fs) pf p xerrno path wd).explained := by
  cases call with
  | chroot =>
    cases xerrno with
    | eperm =>
      have huid : env.getuid ≠ prRootUid := by simpa [Explainer.walks] using h
      have huid' : (env.frozen fs).getuid ≠ prRootUid := huid
      show (explainChrootError env pf p .eperm path wd).explained =
        (explainChrootError (env.frozen fs) pf p .eperm path wd).explained
      unfold explainChrootError
      simp only [if_pos huid, if_pos huid']
      rfl
    | _ => first | rfl | cases h
  | _ => cases xerrno <;> first | rfl | cases h

/-- **Creations do no harm.**  Entries may appear while the walk is under way: the
explanation of a path that was not missing when it began is the one the filesystem
of that time would have got, for every call and every error. -/
theorem explain_creations (hcore : CoreLaws env (absPath ns)) (hT : Over env T) {wd : World}
    (hgrow : OnlyCreations T wd.lstatCalls.length)
    (hres : lstatLinks (T wd.lstatCalls.length) ns ≠ .error .enoent) (call : Explainer)
    (pf : Platform w) (p : Pool) (xerrno : Errno) :
    (call.explain env pf p xerrno (some (absPath ns)) wd).explained =
      (call.explain (env.frozen fun q => lstatLinks (T wd.lstatCalls.length) (namesOf q)) pf p xerrno
        (some (absPath ns)) wd).explained := by
  cases hwalks : call.walks env.getuid xerrno with
  | false => exact explained_frozen_of_not_walks hwalks pf p _ wd
  | true =>
    have hsame {i : Nat} (hi : i ≤ ns.length) (m : Nat) :
        lstatLinks (T (wd.lstatCalls.length + m)) (ns.take i) =
          lstatLinks (T wd.lstatCalls.length) (ns.take i) :=
      hgrow.lstat (Nat.le_add_right _ m) fun hmiss => hres (lstatLinks_take_error hi hmiss)
    have hlen : (root :: ns.map Name.bytes).length = ns.length + 1 := by simp
    rw [Explainer.explained_of_walks hwalks,
      @Explainer.explained_of_walks _ (env.frozen _) _ _ hwalks]
    apply explained_frozen <;> rw [pathSplit_absPath hcore, hlen]
    · intro i hi
      have hi : i ≤ ns.length := Nat.le_of_lt_succ hi
      rw [answerAt_over hcore hT wd hi, prefixAt_absPath hcore.joins i hi, namesOf_absPath, hsame hi]
    · intro _ q hq
      rw [Nat.add_sub_cancel] at hq
      cases hm : ns.length with
      | zero =>
        rw [hm] at hq
        cases hq
      | succ m =>
        rw [hm] at hq
        have hq : some (prefixAt env (root :: ns.map Name.bytes) m) = some q := hq
        have hm : m ≤ ns.length := by omega
        rw [prefixAt_absPath hcore.joins m hm, Option.some.injEq] at hq
        rw [← hq, hT, namesOf_absPath, hsame hm]

/-! ## Entries that go -/

/-- A walk that does not ask for the parent is the one in a filesystem that always
gives its answers. -/
theorem explained_seenFrom (hcore : CoreLaws env (absPath ns)) (hT : Over env T) {call : Explainer}
    {xerrno : Errno} (hwalks : call.walks env.getuid xerrno = true) (herr : xerrno ≠ .eacces)
    (pf : Platform w) (p : Pool) (wd : World) :
    (call.explain env pf p xerrno (some (absPath ns)) wd).explained =
      (explainPathError (env.frozen (seenFrom T wd.lstatCalls.length)) pf (some p) xerrno
        (some (absPath ns)) call.pathFlags call.mode wd).1 := by
  have hlen : (root :: ns.map Name.bytes).length = ns.length + 1 := by simp
  rw [Explainer.explained_of_walks hwalks]
  apply explained_frozen
  · rw [pathSplit_absPath hcore, hlen]
    intro i hi
    have hi : i ≤ ns.length := Nat.le_of_lt_succ hi
    rw [answerAt_over hcore hT wd hi, prefixAt_absPath hcore.joins i hi, seenFrom_take T _ hi]
  · exact fun h => absurd h herr

/-- What is found was there at the start. -/
theorem OnlyRemovals.found {n i : Nat} (h : OnlyRemovals T n) (hi : n ≤ i) {p : List Name} {st : Stat}
    (hst : lstatLinks (T i) p = .ok st) : lstatLinks (T n) p = .ok st := by
  rcases h.lstat hi p with hgone | hsame
  · rw [hst] at hgone
    cases hgone
  · rw [← hsame, hst]

/-- What is missing stays missing. -/
theorem OnlyRemovals.gone {n i j : Nat} (h : OnlyRemovals T n) (hi : n ≤ i) (hij : i ≤ j)
    {p : List Name} (hp : lstatLinks (T i) p = .error .enoent) : lstatLinks (T j) p = .error .enoent := by
  rcases lstatLinks_sub (h i j hi hij) p with hgone | hsame
  · exact hgone
  · rw [hsame, hp]

/-- A prefix of what was missing fails for nothing else. -/
theorem OnlyRemovals.missing {n i k : Nat} (h : OnlyRemovals T n) (hi : n ≤ i)
    (hmiss : lstatLinks (T n) ns = .error .enoent) (hk : k ≤ ns.length) {e : Errno}
    (he : lstatLinks (T i) (ns.take k) = .error e) : e = .enoent := by
  rcases h.lstat hi (ns.take k) with hgone | hsame
  · rw [he] at hgone
    cases hgone
    rfl
  · rw [he] at hsame
    have hpath := lstatLinks_take_error hk hsame.symm
    rw [hmiss] at hpath
    cases hpath
    rfl

/-- Where the walk of a path that was missing ends. -/
theorem WalkEnd.of_removals {fs : CStr → Except Errno Stat} {n k : Nat} {flags : UInt32}
    {explained : Option CStr} (hshrink : OnlyRemovals T n)
    (hmiss : lstatLinks (T n) ns = .error .enoent) (hk : k ≤ ns.length)
    (hfs : fs (absPath (ns.take k)) = lstatLinks (T (n + k)) (ns.take k))
    (hend : WalkEnd env fs ns .enoent flags k explained) :
    lstatLinks (T (n + k)) (ns.take k) = .error .enoent ∧
      explained = some ((if k < ns.length then lit "directory '" else lit "file '") ++
        absPath (ns.take k) ++ lit "' does not exist") := by
  have hle : n ≤ n + k := Nat.le_add_right n k
  have hwhole : ns.take ns.length = ns := List.take_length
  cases hend with
  | @dirLookup e hlt he =>
    rw [hfs] at he
    obtain rfl := hshrink.missing hle hmiss hk he
    exact ⟨he, by simp [describeDirLookup, hlt]⟩
  | @fileLookup e heq he =>
    have he : fs (absPath (ns.take k)) = .error e := by rw [heq, hwhole, he]
    rw [hfs] at he
    obtain rfl := hshrink.missing hle hmiss hk he
    exact ⟨he, by simp [describeFileLookup, heq]⟩
  | @notDir st hlt hst hty =>
    rw [hfs] at hst
    rw [lstatLinks_below hlt (hshrink.found hle hst) hty] at hmiss
    cases hmiss
  | @leaf st heq hst herr =>
    subst heq
    rw [hwhole] at hfs
    rw [hfs] at hst
    rw [hshrink.found hle hst] at hmiss
    cases hmiss
  | leafEacces _ _ herr _ _ => cases herr

/-- **Removals are explained.**  Entries may go while the walk is under way: when
the path was missing at the start, what is named is missing when it is looked up
and from then on, at or above what was missing first, and the prefixes before it
were directories or symlinks when they were looked up. -/
theorem explain_enoent_removals (hcore : CoreLaws env (absPath ns)) (hT : Over env T) {wd : World}
    (hshrink : OnlyRemovals T wd.lstatCalls.length)
    (hmiss : lstatLinks (T wd.lstatCalls.length) ns = .error .enoent) (call : Explainer)
    (pf : Platform w) (p : Pool) :
    ∃ k ≤ ns.length,
      (∀ n, wd.lstatCalls.length + k ≤ n → lstatLinks (T n) (ns.take k) = .error .enoent) ∧
      (∀ i < k, ∃ st, lstatLinks (T (wd.lstatCalls.length + i)) (ns.take i) = .ok st ∧
        DirOrLink st) ∧
      (∀ m, lstatLinks (T wd.lstatCalls.length) (ns.take m) = .error .enoent → k ≤ m) ∧
      (call.explain env pf p .enoent (some (absPath ns)) wd).explained =
        some ((if k < ns.length then lit "directory '" else lit "file '") ++ absPath (ns.take k) ++
          lit "' does not exist") := by
  have hwalks : call.walks env.getuid .enoent = true := by cases call <;> rfl
  have herr : Errno.enoent ≠ .enametoolong := by decide
  obtain ⟨k, hk, hbefore, hend⟩ := explainPathError_static (hcore.frozen _)
    (env.frozen_static (seenFrom T wd.lstatCalls.length)) pf p herr call.pathFlags call.mode wd
  rw [← explained_seenFrom hcore hT hwalks (by decide) pf p wd] at hend
  obtain ⟨hgone, htext⟩ := hend.of_removals hshrink hmiss hk (seenFrom_take T _ hk)
  -- before `k` something was found, so nothing was missing there
  have hpassed (i : Nat) (hi : i < k) : ∃ st,
      lstatLinks (T (wd.lstatCalls.length + i)) (ns.take i) = .ok st ∧ DirOrLink st := by
    obtain ⟨st, hst, hty⟩ := hbefore i hi
    rw [seenFrom_take T _ (by omega)] at hst
    exact ⟨st, hst, hty⟩
  refine ⟨k, hk, fun n hn => hshrink.gone (Nat.le_add_right _ k) hn hgone, hpassed, fun m hm => ?_,
    htext⟩
  by_contra hlt
  obtain ⟨st, hst, -⟩ := hpassed m (by omega)
  rw [hshrink.found (Nat.le_add_right _ m) hst] at hm
  cases hm

/-! ## A host whose files come and go -/

/-- `bareHost` with the files of `T n` at the `n`-th lookup. -/
def raceHost (T : Nat → LinkFs) : Env 64 :=
  { bareHost with
    lstat := fun n path =>
      match path with
      | some path => lstatLinks (T n) (namesOf path)
      | none => .error .einval }

theorem raceHost_laws (T : Nat → LinkFs) (v : CStr) : CoreLaws (raceHost T) v :=
  ⟨fun _ => rfl, fun _ => rfl, bareHost_joins⟩

theorem raceHost_over (T : Nat → LinkFs) : Over (raceHost T) T := by
  intro n ns
  show lstatLinks (T n) (namesOf (absPath ns)) = _
  rw [namesOf_absPath]

theorem linkFsOf_sub (files more : List (List Name × FileNode)) :
    (linkFsOf files).Sub (linkFsOf (files ++ more)) := by
  refine ⟨fun p i h => ?_, rfl⟩
  have h : (if p = [] then _ else files.lookup p) = some i := h
  show (if p = [] then _ else (files ++ more).lookup p) = some i
  split at h
  · rename_i hp
    rw [if_pos hp, h]
  · rename_i hp
    rw [if_neg hp, List.lookup_append, h]
    rfl

/-- The files `before` the first lookup, and those `after` it. -/
def changed (before after : List (List Name × FileNode)) (n : Nat) : LinkFs :=
  if n = 0 then linkFsOf before else linkFsOf after

/-- `/home` is a symlink to `/bob`, which goes after the walk looked up `/`. -/
def bobGone : Nat → LinkFs :=
  changed [([home], aLink ⟨false, [.name bob]⟩), ([bob], anOpenDir)]
    [([home], aLink ⟨false, [.name bob]⟩)]

/-- `/home/report` is missing; the symlink on the way to it dangles when it is
looked up. -/
theorem explain_enoent_removals_bobGone :
    (Explainer.stat.explain (raceHost bobGone) .initial ⟨0⟩ .enoent (some (absPath [home, report]))
      .start).explained = some (lit "file '/home/report' does not exist") := by
  have hshrink : OnlyRemovals bobGone 0 := by
    intro i j _ hij
    unfold bobGone changed
    split
    · rename_i hj
      rw [if_pos (by omega)]
      exact linkFsOf_sub _ []
    · split
      · exact linkFsOf_sub _ [([bob], anOpenDir)]
      · exact linkFsOf_sub _ []
  obtain ⟨k, hk, hgone, -, -, htext⟩ := @explain_enoent_removals _ _ [home, report] _
    (raceHost_laws _ _) (raceHost_over bobGone) .start hshrink rfl .stat .initial ⟨0⟩
  have h0 : k ≠ 0 := by
    rintro rfl
    cases hgone 0 (Nat.le_refl _)
  have h1 : k ≠ 1 := by
    rintro rfl
    cases hgone 1 (Nat.le_refl _)
  have hk : k ≤ 2 := hk
  obtain rfl : k = 2 := by omega
  rw [htext]
  decide

/-- `/home` is a symlink to `/`, and `/report` appears after the walk looked up `/`. -/
def reportCreated : Nat → LinkFs :=
  changed [([home], aLink ⟨true, []⟩), ([bob], anOpenDir)]
    [([home], aLink ⟨true, []⟩), ([bob], anOpenDir), ([report], anOpenDir)]

theorem explain_creations_reportCreated :
    (Explainer.stat.explain (raceHost reportCreated) .initial ⟨0⟩ .eacces
      (some (absPath [home, bob])) .start).explained =
      (Explainer.stat.explain
        ((raceHost reportCreated).frozen fun q => lstatLinks (reportCreated 0) (namesOf q)) .initial
        ⟨0⟩ .eacces (some (absPath [home, bob])) .start).explained := by
  have hgrow : OnlyCreations reportCreated 0 := by
    intro i _
    unfold reportCreated changed
    rw [if_pos rfl]
    split
    · exact linkFsOf_sub _ []
    · exact linkFsOf_sub _ [([report], anOpenDir)]
  have hfound : lstatLinks (reportCreated 0) [home, bob] = .ok anOpenDir.stat := rfl
  have hres : lstatLinks (reportCreated 0) [home, bob] ≠ .error .enoent := by
    rw [hfound]
    exact fun h => nomatch h
  exact @explain_creations _ (raceHost reportCreated) _ _ (raceHost_laws _ _) (raceHost_over _) .start
    hgrow hres .stat .initial ⟨0⟩ .eacces

end Explain
