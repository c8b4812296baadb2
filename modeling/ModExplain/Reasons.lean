import ModExplain.Lengths

/-!
# What an explanation says

`Reason` is what the walk finds out, and the text is its rendering
(`explainPathError_render`).  The explainers differ in the wording of one kind of
reason only (`explainers_agree`).

    path component 'C' exceeds the system maximum name length (A > max B)
    'P' exceeds the system maximum path length (A > max B)
    directory 'P' does not exist              file 'P' does not exist
    directory 'P' is not searchable by the user
    path 'P' does not refer to a directory
    file 'P' is not searchable by the user                        ┐ ; parent directory
    directory containing 'P' is not writable by the user          ┘ 'Q' has perms …
-/

namespace Explain

variable {w : Nat}

/-! ## Reasons -/

/-- What the lookup of the parent directory said. -/
inductive Parent where
  | unread
  /-- there is no parent to name, and NULL was looked up -/
  | unnamed
  | found (path : CStr) (perms : Nat) (uid gid : UInt32)
deriving DecidableEq

inductive Reason where
  | pathTooLong (path : CStr) (len max : Nat)
  | nameTooLong (name : CStr) (len max : Nat)
  | missing (whole : Bool) (path : CStr)
  | unsearchable (path : CStr)
  | notDir (path : CStr)
  /-- EACCES, for a whole path; `search` is what was wanted -/
  | leaf (search : Bool) (path : CStr) (parent : Parent)
deriving DecidableEq

/-- The first words of a text. -/
inductive Opening where
  | path
  | component
  | directory
  | file
  | notDir
  | containing
deriving DecidableEq

def Opening.text : Opening → CStr
  | .path => lit "'"
  | .component => lit "path component '"
  | .directory => lit "directory '"
  | .file => lit "file '"
  | .notDir => lit "path '"
  | .containing => lit "directory containing '"

def Parent.text (uid2str gid2str : UInt32 → CStr) : Parent → CStr
  | .unread => []
  | .unnamed => lit "; parent directory '"
  | .found path perms uid gid =>
    lit "; parent directory '" ++ path ++ lit "' has perms " ++ (digits 8 perms).leftpad 4 48 ++
      lit ", and is owned by UID " ++ uid2str uid ++ lit ", GID " ++ gid2str gid

def Reason.opening : Reason → Opening
  | .pathTooLong .. => .path
  | .nameTooLong .. => .component
  | .missing whole _ => if whole then .file else .directory
  | .unsearchable _ => .directory
  | .notDir _ => .notDir
  | .leaf search _ _ => if search then .file else .containing

/-- What a leaf was not allowed. -/
def leafWords (search : Bool) : CStr :=
  if search then lit "' is not searchable by the user" else lit "' is not writable by the user"

/-- The text after its first words. -/
def Reason.rest (uid2str gid2str : UInt32 → CStr) : Reason → CStr
  | .pathTooLong path len max =>
    lengthText (path ++ lit "' exceeds the system maximum path length") len max
  | .nameTooLong name len max =>
    lengthText (name ++ lit "' exceeds the system maximum name length") len max
  | .missing _ path => path ++ lit "' does not exist"
  | .unsearchable path => path ++ lit "' is not searchable by the user"
  | .notDir path => path ++ lit "' does not refer to a directory"
  | .leaf search path parent =>
    path ++ leafWords search ++ parent.text uid2str gid2str

def Reason.render (uid2str gid2str : UInt32 → CStr) (r : Reason) : CStr :=
  r.opening.text ++ r.rest uid2str gid2str

/-! ## The reason the walk finds -/

section Walk

variable (env : Env w) (errErrno : Errno) (flags : UInt32) (nameMax noTrunc : Long w) (cs : List CStr)
  (wd : World) (k : Nat)

def wantsSearch (flags : UInt32) : Bool := decide (flags &&& explainPathFlWantSearch ≠ 0)

def parentFound (path : Option CStr) : Except Errno Stat → Parent
  | .error _ => .unread
  | .ok st =>
    match path with
    | none => .unnamed
    | some path => .found path (st.stMode &&& ~~~sIfmt).toNat st.stUid st.stGid

/-- The reason, when the walk halts at `k`. -/
def reasonAt : Option Reason :=
  let path := prefixAt env cs k
  let component := cs.getD k []
  if TooLong errErrno nameMax noTrunc component then
    some (.nameTooLong component component.length nameMax.toNat)
  else match answerAt env cs wd k with
    | .error .enoent => some (.missing (decide (k = cs.length - 1)) path)
    | .error .eacces =>
      if k = cs.length - 1 then some (.leaf (wantsSearch flags) path .unread)
      else some (.unsearchable path)
    | .error _ => none
    | .ok _ =>
      if k ≠ cs.length - 1 then some (.notDir path)
      else if errErrno = .eacces then
        some (.leaf (wantsSearch flags) path (parentFound (parentOf env cs k)
          (env.lstat (wd.lstatCalls.length + (k + 1)) (parentOf env cs k))))
      else none

variable {env errErrno flags nameMax noTrunc cs wd k}

variable (env) in
theorem eaccesLeafText_eq (path : CStr) :
    eaccesLeafText flags path =
      (Reason.leaf (wantsSearch flags) path .unread).render env.prUid2str env.prGid2str := by
  unfold eaccesLeafText Reason.render Reason.opening Reason.rest leafWords wantsSearch
  by_cases h : flags &&& explainPathFlWantSearch ≠ 0
  · simp [h, Opening.text, Parent.text]
  · simp only [h, decide_false, Bool.false_eq_true, if_false, Opening.text, Parent.text,
      List.append_nil, List.append_assoc]

theorem append_lengthText (x y : CStr) (a b : Nat) :
    x ++ lengthText y a b = lengthText (x ++ y) a b := by
  simp [lengthText]

theorem leaf_render (uid2str gid2str : UInt32 → CStr) (search : Bool) (path : CStr)
    (parent : Parent) :
    (Reason.leaf search path parent).render uid2str gid2str =
      (Reason.leaf search path .unread).render uid2str gid2str ++ parent.text uid2str gid2str := by
  simp [Reason.render, Reason.rest, Reason.opening, Parent.text]

theorem describeLeaf_render (path : CStr) (parent : Option CStr) (res : Except Errno Stat) :
    describeLeaf env path flags parent res =
      (Reason.leaf (wantsSearch flags) path (parentFound parent res)).render env.prUid2str
        env.prGid2str := by
  rw [leaf_render, ← eaccesLeafText_eq env]
  cases res with
  | error e => simp [describeLeaf, parentFound, Parent.text]
  | ok st =>
    cases parent with
    | none => simp [describeLeaf, describeParent, pstrcat, parentFound, Parent.text]
    | some q => simp [describeLeaf, parentFound, Parent.text, mode2s]

/-- **Rendering.**  What the walk returns is the text of its reason. -/
theorem haltResult_render :
    (haltResult env errErrno flags nameMax noTrunc cs wd k).1 =
      (reasonAt env errErrno flags nameMax noTrunc cs wd k).map
        (Reason.render env.prUid2str env.prGid2str) := by
  unfold reasonAt
  by_cases hlong : TooLong errErrno nameMax noTrunc (cs.getD k [])
  · rw [haltResult_long hlong, if_pos hlong, describeEnametoolongName_text]
    simp [Reason.render, Reason.opening, Reason.rest, Opening.text, componentLengthText,
      append_lengthText]
  rw [if_neg hlong]
  cases hans : answerAt env cs wd k with
  | error e =>
    rw [haltResult_error hlong hans]
    by_cases hlast : k = cs.length - 1
    · cases e <;> simp only [if_pos hlast]
      case enoent => simp [describeFileLookup, hlast, Reason.render, Reason.opening, Reason.rest,
        Opening.text]
      case eacces => simp only [describeFileLookup, describeEaccesFile_eq, eaccesLeafText_eq env,
        Option.map_some]
      all_goals rfl
    · cases e <;> simp only [if_neg hlast]
      case enoent => simp [describeDirLookup, hlast, Reason.render, Reason.opening, Reason.rest,
        Opening.text]
      case eacces => simp [describeDirLookup, Reason.render, Reason.opening, Reason.rest,
        Opening.text]
      all_goals rfl
  | ok st =>
    by_cases hlast : k = cs.length - 1
    · simp only [if_neg (not_not_intro hlast)]
      by_cases hacc : errErrno = .eacces
      · rw [haltResult_leaf_eacces hlong hans hlast hacc, if_pos hacc, describeLeaf_render]
        rfl
      · rw [haltResult_leaf hlong hans hlast hacc, if_neg hacc]
        rfl
    · rw [haltResult_notDir hlong hans hlast, if_pos hlast]
      simp [Reason.render, Reason.opening, Reason.rest, Opening.text]

end Walk

/-- The reason found for a path: it is too long, or what the walk halts at says. -/
def Reasoned (env : Env w) (pf : Platform w) (errErrno : Errno) (path : CStr) (flags : UInt32)
    (wd : World) (r : Option Reason) : Prop :=
  let nameMax := sessLimit env pf.platformSessNameMax .nameMax path
  let noTrunc := sessLimit env pf.platformSessNoTrunc .noTrunc path
  let pathMax := sessLimit env pf.platformSessPathMax .pathMax path
  let cs := pathSplit env path
  PathTooLong env pf errErrno path ∧ r = some (.pathTooLong path path.length pathMax.toNat) ∨
  ¬ PathTooLong env pf errErrno path ∧
    ∃ k < cs.length, IsLeast {i | Halts env errErrno nameMax noTrunc cs wd i} k ∧
      r = reasonAt env errErrno flags nameMax noTrunc cs wd k

section PathError

variable {env : Env w} {pf : Platform w} {errErrno : Errno} {path : CStr} {flags : UInt32} {wd : World}

theorem reasonAt_congr {nameMax noTrunc : Long w} {cs : List CStr} {wd' : World} {k : Nat}
    (h : wd'.lstatCalls = wd.lstatCalls) :
    reasonAt env errErrno flags nameMax noTrunc cs wd' k =
      reasonAt env errErrno flags nameMax noTrunc cs wd k := by
  unfold reasonAt
  rw [answerAt_congr h, h]

theorem explainPathError_render {r : Option Reason}
    (h : Reasoned env pf errErrno path flags wd r) (p : Pool) (mode : UInt32) :
    (explainPathError env pf (some p) errErrno (some path) flags mode wd).1 =
      r.map (Reason.render env.prUid2str env.prGid2str) := by
  rcases h with ⟨hlong, rfl⟩ | ⟨hfits, k, -, hleast, rfl⟩
  · rw [explainPathError_of_long hlong, describeEnametoolongPath_text]
    simp [Reason.render, Reason.opening, Reason.rest, Opening.text, pathLengthText,
      append_lengthText]
  · obtain ⟨k', -, hleast', lw, hlw, hr⟩ := explainPathError_eq_of_fits hfits p flags mode wd
    rw [hleast.unique hleast', hr, haltResult_render, reasonAt_congr hlw]

/-- Every path has its reason, or none is found. -/
theorem exists_reasoned (env : Env w) (pf : Platform w) (errErrno : Errno) (path : CStr)
    (flags : UInt32) (wd : World) : ∃ r, Reasoned env pf errErrno path flags wd r := by
  by_cases hlong : PathTooLong env pf errErrno path
  · exact ⟨_, Or.inl ⟨hlong, rfl⟩⟩
  · obtain ⟨k, hk, hleast⟩ := exists_least_halt env errErrno
      (sessLimit env pf.platformSessNameMax .nameMax path)
      (sessLimit env pf.platformSessNoTrunc .noTrunc path) wd (pathSplit_ne_nil env path)
    exact ⟨_, Or.inr ⟨hlong, k, hk, hleast, rfl⟩⟩

end PathError

/-! ## The four explainers -/

/-- The same reason for a call that wants this of a leaf. -/
def Reason.wanting (search : Bool) : Reason → Reason
  | .leaf _ path parent => .leaf search path parent
  | r => r

section Calls

variable {env : Env w} {errErrno : Errno} {nameMax noTrunc : Long w} {cs : List CStr} {wd : World}
  {k : Nat}

theorem reasonAt_wanting (flags flags' : UInt32) :
    reasonAt env errErrno flags nameMax noTrunc cs wd k =
      (reasonAt env errErrno flags' nameMax noTrunc cs wd k).map
        (Reason.wanting (wantsSearch flags)) := by
  unfold reasonAt
  dsimp only
  split
  · rfl
  · cases answerAt env cs wd k with
    | error e => cases e <;> first | rfl | (dsimp only; split <;> rfl)
    | ok st =>
      dsimp only
      split
      · rfl
      · split <;> rfl

theorem haltResult_world_flags (flags flags' : UInt32) :
    (haltResult env errErrno flags nameMax noTrunc cs wd k).2 =
      (haltResult env errErrno flags' nameMax noTrunc cs wd k).2 := by
  unfold haltResult
  dsimp only
  split
  · rfl
  · cases answerAt env cs wd k with
    | error e => rfl
    | ok st =>
      dsimp only
      split
      · rfl
      · split <;> rfl

theorem wantsSearch_pathFlags (call : Explainer) :
    wantsSearch call.pathFlags = decide (call ≠ .unlink) := by
  cases call <;> decide

theorem walkPath_world_flags (pf : Platform w) (path : CStr) (flags flags' : UInt32) :
    (walkPath env pf errErrno path flags wd).2 = (walkPath env pf errErrno path flags' wd).2 := by
  obtain ⟨k, -, hleast, hr⟩ := walkPath_eq_haltResult env pf path wd errErrno flags
  obtain ⟨k', -, hleast', hr'⟩ := walkPath_eq_haltResult env pf path wd errErrno flags'
  rw [hr, hr', hleast.unique hleast', haltResult_world_flags flags flags']

/-- Whatever is wanted, the walk finds the same. -/
theorem Reasoned.wanting {pf : Platform w} {path : CStr} {flags : UInt32} {r : Option Reason}
    (h : Reasoned env pf errErrno path flags wd r) (flags' : UInt32) :
    Reasoned env pf errErrno path flags' wd (r.map (Reason.wanting (wantsSearch flags'))) := by
  rcases h with ⟨hlong, rfl⟩ | ⟨hfits, k, hk, hleast, rfl⟩
  · exact Or.inl ⟨hlong, rfl⟩
  · exact Or.inr ⟨hfits, k, hk, hleast, (reasonAt_wanting flags' flags).symm⟩

/-- The flags decide nothing but how a leaf is worded, and the mode nothing. -/
theorem explainPathError_flags (pf : Platform w) (p : Option Pool) (path : Option CStr)
    (flags flags' mode mode' : UInt32) :
    (explainPathError env pf p errErrno path flags mode wd).2 =
        (explainPathError env pf p errErrno path flags' mode' wd).2 ∧
      ∃ r : Option Reason,
        (explainPathError env pf p errErrno path flags mode wd).1 =
          r.map (fun r => (r.wanting (wantsSearch flags)).render env.prUid2str env.prGid2str) ∧
        (explainPathError env pf p errErrno path flags' mode' wd).1 =
          r.map (fun r => (r.wanting (wantsSearch flags')).render env.prUid2str env.prGid2str) := by
  cases p with
  | none => exact ⟨rfl, none, rfl, rfl⟩
  | some p =>
    cases path with
    | none => exact ⟨rfl, none, rfl, rfl⟩
    | some path =>
      constructor
      · unfold explainPathError
        dsimp only
        split
        · split
          · rfl
          · exact walkPath_world_flags pf path flags flags'
        · exact walkPath_world_flags pf path flags flags'
      · obtain ⟨r, hr⟩ := exists_reasoned env pf errErrno path flags wd
        refine ⟨r, ?_, ?_⟩
        · rw [explainPathError_render (hr.wanting flags), Option.map_map]
          rfl
        · rw [explainPathError_render (hr.wanting flags'), Option.map_map]
          rfl

end Calls

/-- **One reason for all.**  Explainers that walk the path for an error make the
same calls, leave the same behind and find the same reason; that it was `unlink`
shows only in how a leaf that EACCES is blamed on is worded. -/
theorem explainers_agree {env : Env w} {call call' : Explainer} {xerrno : Errno}
    (h : call.walks env.getuid xerrno = true) (h' : call'.walks env.getuid xerrno = true)
    (pf : Platform w) (p : Pool) (path : Option CStr) (wd : World) :
    let x := call.explain env pf p xerrno path wd
    let x' := call'.explain env pf p xerrno path wd
    x.args = x'.args ∧ x.world = x'.world ∧
      ∃ r : Option Reason,
        x.explained = r.map (fun r =>
          (r.wanting (decide (call ≠ .unlink))).render env.prUid2str env.prGid2str) ∧
        x'.explained = r.map (fun r =>
          (r.wanting (decide (call' ≠ .unlink))).render env.prUid2str env.prGid2str) := by
  intro x x'
  obtain ⟨hworld, r, hr, hr'⟩ := @explainPathError_flags w env xerrno wd pf (some p) path
    call.pathFlags call'.pathFlags call.mode call'.mode
  rw [wantsSearch_pathFlags] at hr hr'
  have hx : x = _ := Explainer.explain_of_walks h pf p path wd
  have hx' : x' = _ := Explainer.explain_of_walks h' pf p path wd
  rw [hx, hx']
  exact ⟨rfl, hworld, r, hr, hr'⟩

/-- `chroot` and `unlink` of a directory whose parent denies both: one reason, two
wordings. -/
theorem explainers_agree_openHost :
    let x := Explainer.chroot.explain openHost .initial ⟨0⟩ .eacces (some (lit "/a/b")) .start
    let x' := Explainer.unlink.explain openHost .initial ⟨0⟩ .eacces (some (lit "/a/b")) .start
    let parent := lit "; parent directory '/a' has perms 0755, and is owned by UID 0, GID 0"
    x.args = x'.args ∧ x.world = x'.world ∧
      x.explained = some (lit "file '/a/b' is not searchable by the user" ++ parent) ∧
      x'.explained =
        some (lit "directory containing '/a/b' is not writable by the user" ++ parent) ∧
      ∃ r : Reason,
        x.explained = some ((r.wanting true).render (digits 10 ·.toNat) (digits 10 ·.toNat)) ∧
        x'.explained = some ((r.wanting false).render (digits 10 ·.toNat) (digits 10 ·.toNat)) := by
  intro x x' parent
  obtain ⟨hargs, hworld, r, hr, hr'⟩ := @explainers_agree 64 openHost .chroot .unlink .eacces rfl rfl
    .initial ⟨0⟩ (some (lit "/a/b")) .start
  have htext : x.explained = some (lit "file '/a/b' is not searchable by the user" ++ parent) := by
    decide
  refine ⟨hargs, hworld, htext, by decide, ?_⟩
  cases r with
  | none => cases htext.symm.trans hr
  | some r => exact ⟨r, hr, hr'⟩

end Explain
