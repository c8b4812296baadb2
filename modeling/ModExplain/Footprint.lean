import ModExplain.Server
import ModExplain.WalkLaw

/-!
# What an explanation leaves behind

An explainer changes nothing but `errno`, and that through the calls it makes:
`World` after it is `World` before it with these calls made, in this order.

    pathconf for the limits not known to be positive: the path's when the error
      is ENAMETOOLONG, then the name's and whether names are cut
    lstat of q₀ … q_k, up to where the walk halts, and of the parent of a leaf
      that EACCES is blamed on                              (explain_footprint)

* a session that heard of positive limits asks for none any more
                                                    (`limits_not_asked_again`)
-/

namespace Explain

open Runs

variable {w : Nat}

/-! ## Calls -/

inductive Call where
  | lstat (path : Option CStr)
  | pathconf (path : CStr) (name : PathconfName)
deriving DecidableEq

def Call.make (env : Env w) (wd : World) : Call → World
  | .lstat path => (prFsioLstat env path wd).2
  | .pathconf path name => (Explain.pathconf env path name wd).2

/-- Asking for a limit: only when it is not known to be positive. -/
def limitCalls (cached : Long w) (name : PathconfName) (path : CStr) : List Call :=
  if 0 < cached.toInt then [] else [.pathconf path name]

/-- The lookups of the first `k` prefixes. -/
def prefixCalls (env : Env w) (cs : List CStr) (k : Nat) : List Call :=
  (List.range k).map fun i => .lstat (some (prefixAt env cs i))

/-- The lookups of a walk that halts at `k`. -/
def walkCalls (env : Env w) (errErrno : Errno) (nameMax noTrunc : Long w) (cs : List CStr) (wd : World)
    (k : Nat) : List Call :=
  if TooLong errErrno nameMax noTrunc (cs.getD k []) then prefixCalls env cs k
  else prefixCalls env cs (k + 1) ++
    if k = cs.length - 1 ∧ (answerAt env cs wd k).isOk ∧ errErrno = .eacces then
      [.lstat (parentOf env cs k)] else []

/-! ## The walk -/

section Walk

variable {env : Env w} {errErrno : Errno} {flags : UInt32} {nameMax noTrunc : Long w}
  {cs : List CStr} {wd : World} {k : Nat}

theorem prefixCalls_succ (env : Env w) (cs : List CStr) (k : Nat) :
    prefixCalls env cs (k + 1) = prefixCalls env cs k ++ [.lstat (some (prefixAt env cs k))] := by
  simp [prefixCalls, List.range_succ]

/-- Lookups that succeed leave `errno` alone. -/
theorem after_prefixCalls (hok : ∀ i < k, ∃ st, answerAt env cs wd i = .ok st) :
    after (Call.make env) wd (prefixCalls env cs k) = worldAt env cs wd k := by
  induction k with
  | zero => exact (worldAt_zero env cs wd).symm
  | succ k ih =>
    obtain ⟨st, hst⟩ := hok k (Nat.lt_succ_self k)
    rw [prefixCalls_succ, after_snoc, ih fun i hi => hok i (Nat.lt_succ_of_lt hi)]
    show (prFsioLstat env (some (prefixAt env cs k)) (worldAt env cs wd k)).2 = _
    rw [prFsioLstat_worldAt, hst]
    rfl

theorem after_prefixCalls_succ (hok : ∀ i < k, ∃ st, answerAt env cs wd i = .ok st) :
    after (Call.make env) wd (prefixCalls env cs (k + 1)) =
      { worldAt env cs wd (k + 1) with errno := errnoAfter wd.errno (answerAt env cs wd k) } := by
  rw [prefixCalls_succ, after_snoc, after_prefixCalls hok]
  show (prFsioLstat env (some (prefixAt env cs k)) (worldAt env cs wd k)).2 = _
  rw [prFsioLstat_worldAt]

/-- Before the halt every lookup succeeds. -/
theorem answers_before_halt (hleast : IsLeast {i | Halts env errErrno nameMax noTrunc cs wd i} k) :
    ∀ i < k, ∃ st, answerAt env cs wd i = .ok st := by
  intro i hi
  cases hans : answerAt env cs wd i with
  | ok st => exact ⟨st, rfl⟩
  | error e => exact absurd (hleast.2 (Or.inr (Or.inl ⟨e, hans⟩))) (by omega)

theorem haltResult_world (hleast : IsLeast {i | Halts env errErrno nameMax noTrunc cs wd i} k) :
    (haltResult env errErrno flags nameMax noTrunc cs wd k).2 =
      after (Call.make env) wd (walkCalls env errErrno nameMax noTrunc cs wd k) := by
  have hok := answers_before_halt hleast
  unfold walkCalls
  by_cases hlong : TooLong errErrno nameMax noTrunc (cs.getD k [])
  · rw [if_pos hlong, haltResult_long hlong, after_prefixCalls hok]
  rw [if_neg hlong, after_append, after_prefixCalls_succ hok]
  cases hans : answerAt env cs wd k with
  | error e =>
    have hno : ¬ (k = cs.length - 1 ∧ (Except.error e : Except Errno Stat).isOk = true ∧
        errErrno = .eacces) := fun h => Bool.false_ne_true h.2.1
    rw [haltResult_error hlong hans, if_neg hno]
    rfl
  | ok st =>
    have hworld : { worldAt env cs wd (k + 1) with
        errno := errnoAfter wd.errno (Except.ok st : Except Errno Stat) } =
          worldAt env cs wd (k + 1) := rfl
    rw [hworld]
    by_cases hlast : k = cs.length - 1
    · by_cases hacc : errErrno = .eacces
      · rw [haltResult_leaf_eacces hlong hans hlast hacc, if_pos ⟨hlast, rfl, hacc⟩]
        rfl
      · rw [haltResult_leaf hlong hans hlast hacc, if_neg fun h => hacc h.2.2]
        rfl
    · rw [haltResult_notDir hlong hans hlast, if_neg fun h => hlast h.1]
      rfl

end Walk

/-! ## The whole of an explanation -/

section Path

variable {env : Env w} (hpc : env.havePathconf = true) (pf : Platform w) (p : Pool)
  (errErrno : Errno) (path : CStr) (flags mode : UInt32) (wd : World)
include hpc

theorem platformSessLimit_world (cached : Long w) (name : PathconfName) :
    (platformSessLimit env cached name (some path) wd).2 =
      after (Call.make env) wd (limitCalls cached name path) := by
  unfold platformSessLimit limitCalls
  rw [if_pos hpc]
  dsimp only
  split <;> rfl

theorem loopWorld_eq :
    loopWorld env pf path wd = after (Call.make env) wd
      (limitCalls pf.platformSessNameMax .nameMax path ++
        limitCalls pf.platformSessNoTrunc .noTrunc path) := by
  unfold loopWorld explainPlatformNoTrunc explainPlatformNameMax
  rw [platformSessLimit_world hpc, platformSessLimit_world hpc, after_append]

theorem walkPath_world :
    let nameMax := sessLimit env pf.platformSessNameMax .nameMax path
    let noTrunc := sessLimit env pf.platformSessNoTrunc .noTrunc path
    let cs := pathSplit env path
    ∃ k, IsLeast {i | Halts env errErrno nameMax noTrunc cs wd i} k ∧
      (walkPath env pf errErrno path flags wd).2 = after (Call.make env) wd
        (limitCalls pf.platformSessNameMax .nameMax path ++
          limitCalls pf.platformSessNoTrunc .noTrunc path ++
          walkCalls env errErrno nameMax noTrunc cs wd k) := by
  intro nameMax noTrunc cs
  obtain ⟨k, hk, hleast, hwalk⟩ := walkPath_eq_haltResult env pf path wd errErrno flags
  have hlw := loopWorld_lstatCalls env pf path wd
  have hcalls : walkCalls env errErrno nameMax noTrunc cs (loopWorld env pf path wd) k =
      walkCalls env errErrno nameMax noTrunc cs wd k := by
    unfold walkCalls
    rw [answerAt_congr hlw]
  refine ⟨k, ⟨(halts_congr hlw k).1 hleast.1, fun i hi => hleast.2 ((halts_congr hlw i).2 hi)⟩, ?_⟩
  rw [hwalk, haltResult_world hleast, hcalls, after_append, ← loopWorld_eq hpc]

/-- What `explain_path_error` asks for before it splits the path. -/
def pathLimitCalls (pf : Platform w) (errErrno : Errno) (path : CStr) : List Call :=
  if errErrno = .enametoolong then limitCalls pf.platformSessPathMax .pathMax path else []

theorem explainPathError_world_of_long (h : PathTooLong env pf errErrno path) :
    (explainPathError env pf (some p) errErrno (some path) flags mode wd).2 =
      after (Call.make env) wd (pathLimitCalls pf errErrno path) := by
  obtain ⟨herr, hlong⟩ := h
  unfold explainPathError pathLimitCalls explainPlatformPathMax
  simp only [platformSessLimit_value, if_pos herr, if_pos hlong]
  exact platformSessLimit_world hpc path wd _ _

theorem explainPathError_of_fits_world (h : ¬ PathTooLong env pf errErrno path) :
    explainPathError env pf (some p) errErrno (some path) flags mode wd =
      walkPath env pf errErrno path flags
        (after (Call.make env) wd (pathLimitCalls pf errErrno path)) := by
  unfold pathLimitCalls
  by_cases herr : errErrno = .enametoolong
  · have hshort : ¬ (0 < (sessLimit env pf.platformSessPathMax .pathMax path).toNat ∧
        (sessLimit env pf.platformSessPathMax .pathMax path).toNat < path.length) :=
      fun hlong => h ⟨herr, hlong⟩
    rw [if_pos herr, ← platformSessLimit_world hpc]
    unfold explainPathError explainPlatformPathMax
    simp only [platformSessLimit_value, if_pos herr, if_neg hshort]
  · rw [if_neg herr]
    exact if_neg herr

omit hpc in
theorem pathLimitCalls_lstatCalls :
    (after (Call.make env) wd (pathLimitCalls pf errErrno path)).lstatCalls = wd.lstatCalls := by
  unfold pathLimitCalls limitCalls
  split
  · split <;> rfl
  · rfl

end Path

/-- An explainer that has no case for the error touches nothing. -/
theorem Explainer.world_of_not_walks {env : Env w} {call : Explainer} {xerrno : Errno}
    (h : call.walks env.getuid xerrno = false) (hne : xerrno ≠ .zero) (pf : Platform w) (p : Pool)
    (path : Option CStr) (wd : World) : (call.explain env pf p xerrno path wd).world = wd := by
  cases call with
  | chroot =>
    cases xerrno with
    | eperm =>
      have huid : env.getuid ≠ prRootUid := by simpa [Explainer.walks] using h
      show (explainChrootError env pf p .eperm path wd).world = _
      unfold explainChrootError
      simp only [if_pos huid]
    | zero => exact absurd rfl hne
    | _ => first | rfl | cases h
  | _ =>
    cases xerrno with
    | zero => exact absurd rfl hne
    | _ => first | rfl | cases h

/-- **Footprint.**  What an explainer leaves behind, `errno` included, is what its
calls leave: none for an error it does not walk the path for; the path's limit
for a path over it; and for any other path the limits that are not known to be
positive, then the lookups up to where the walk halts. -/
theorem explain_footprint {env : Env w} (hpc : env.havePathconf = true) (call : Explainer)
    (pf : Platform w) (p : Pool) {xerrno : Errno} (hne : xerrno ≠ .zero) (path : CStr) (wd : World) :
    let nameMax := sessLimit env pf.platformSessNameMax .nameMax path
    let noTrunc := sessLimit env pf.platformSessNoTrunc .noTrunc path
    let cs := pathSplit env path
    let world := (call.explain env pf p xerrno (some path) wd).world
    (call.walks env.getuid xerrno = false → world = wd) ∧
    (call.walks env.getuid xerrno = true → PathTooLong env pf xerrno path →
      world = after (Call.make env) wd (pathLimitCalls pf xerrno path)) ∧
    (call.walks env.getuid xerrno = true → ¬ PathTooLong env pf xerrno path →
      ∃ k, IsLeast {i | Halts env xerrno nameMax noTrunc cs wd i} k ∧
        world = after (Call.make env) wd (pathLimitCalls pf xerrno path ++
          (limitCalls pf.platformSessNameMax .nameMax path ++
            limitCalls pf.platformSessNoTrunc .noTrunc path ++
            walkCalls env xerrno nameMax noTrunc cs wd k))) := by
  intro nameMax noTrunc cs world
  have hwalks (h : call.walks env.getuid xerrno = true) :
      world = (explainPathError env pf (some p) xerrno (some path) call.pathFlags call.mode wd).2 :=
    congrArg Explanation.world (Explainer.explain_of_walks h pf p (some path) wd)
  refine ⟨fun h => Explainer.world_of_not_walks h hne pf p (some path) wd,
    fun h hlong => (hwalks h).trans (explainPathError_world_of_long hpc pf p xerrno path _ _ wd hlong),
    fun h hfits => ?_⟩
  have hcalls : (after (Call.make env) wd (pathLimitCalls pf xerrno path)).lstatCalls = _ :=
    pathLimitCalls_lstatCalls pf xerrno path wd
  obtain ⟨k, hleast, hwalk⟩ := walkPath_world hpc pf xerrno path call.pathFlags
    (after (Call.make env) wd (pathLimitCalls pf xerrno path))
  refine ⟨k, ⟨(halts_congr hcalls k).1 hleast.1,
    fun i hi => hleast.2 ((halts_congr hcalls i).2 hi)⟩, ?_⟩
  rw [hwalks h, explainPathError_of_fits_world hpc pf p xerrno path _ _ wd hfits, hwalk,
    ← after_append]
  unfold walkCalls
  rw [answerAt_congr hcalls]

/-- Nothing of `/etc` can be looked up: no limit is known, and `ENOENT` is left
in `errno`. -/
theorem explain_footprint_bareHost :
    ((Explainer.lstat.explain bareHost .initial ⟨0⟩ .enoent (some (lit "/etc")) .start).world =
      ⟨.enoent, [some (lit "/")], [(lit "/etc", .nameMax), (lit "/etc", .noTrunc)]⟩) := by
  obtain ⟨k, hleast, hworld⟩ := (@explain_footprint 64 bareHost rfl .lstat .initial ⟨0⟩ .enoent
    (by decide) (lit "/etc") .start).2.2 (by decide) (fun h => absurd h.1 (by decide))
  have hk : k = 0 := Nat.le_zero.1 (hleast.2 (Or.inr (Or.inl ⟨.enoent, rfl⟩)))
  subst hk
  rw [hworld]
  decide

/-! ## Limits a session has heard of -/

/-- All three limits are known to be positive. -/
def Platform.Known (pf : Platform w) : Prop := ∀ name, 0 < (pf.cached name).toInt

section Known

variable {env : Env w} {pf : Platform w} (hpf : pf.Known) (path : Option CStr) (wd : World)
include hpf

theorem explainPlatform_pathconfCalls (name : PathconfName) :
    (explainPlatform env name pf path wd).2.pathconfCalls = wd.pathconfCalls := by
  rw [explainPlatform_eq]
  unfold platformSessLimit
  split
  · cases path with
    | none => rfl
    | some path =>
      dsimp only
      rw [if_pos (hpf name)]
  · rfl

omit hpf in
theorem haltResult_pathconfCalls (errErrno : Errno) (flags : UInt32) (nameMax noTrunc : Long w)
    (cs : List CStr) (k : Nat) :
    (haltResult env errErrno flags nameMax noTrunc cs wd k).2.pathconfCalls = wd.pathconfCalls := by
  unfold haltResult
  dsimp only
  split
  · rfl
  · split
    · rfl
    · split
      · rfl
      · split <;> rfl

theorem explainPathError_pathconfCalls (p : Pool) (errErrno : Errno) (flags mode : UInt32) :
    (explainPathError env pf (some p) errErrno path flags mode wd).2.pathconfCalls =
      wd.pathconfCalls := by
  have hwalk (path : CStr) (wd : World) :
      (walkPath env pf errErrno path flags wd).2.pathconfCalls = wd.pathconfCalls := by
    obtain ⟨k, -, -, hres⟩ := walkPath_eq_haltResult env pf path wd errErrno flags
    rw [hres, haltResult_pathconfCalls]
    unfold loopWorld
    exact (explainPlatform_pathconfCalls hpf (some path) _ .noTrunc).trans
      (explainPlatform_pathconfCalls hpf (some path) wd .nameMax)
  cases path with
  | none => rfl
  | some path =>
    have hmax : (explainPlatformPathMax env pf (some path) wd).2.pathconfCalls = wd.pathconfCalls :=
      explainPlatform_pathconfCalls hpf (some path) wd .pathMax
    unfold explainPathError
    dsimp only
    split
    · split
      · exact hmax
      · rw [hwalk, hmax]
    · exact hwalk path wd

theorem explain_pathconfCalls (call : Explainer) (p : Pool) (xerrno : Errno) :
    (call.explain env pf p xerrno path wd).world.pathconfCalls = wd.pathconfCalls := by
  cases hwalks : call.walks env.getuid xerrno with
  | true =>
    rw [Explainer.explain_of_walks hwalks]
    exact explainPathError_pathconfCalls hpf path wd p xerrno _ _
  | false =>
    by_cases hzero : xerrno = .zero
    · subst hzero
      cases call <;> rfl
    · rw [Explainer.world_of_not_walks hwalks hzero]

end Known

/-- A chroot, if it is one, to a directory with three positive limits. -/
def SessionEvent.Limited : SessionEvent w → Prop
  | .chroot path host _ => ∀ name, 0 < (pathconfValue (host.pathconf path name)).toInt
  | .ask .. => True

/-- What `core.chroot` leaves in the cache. -/
theorem chrootEv_known {host : Env w} (hpc : host.havePathconf = true) {path : CStr}
    (hlim : ∀ name, 0 < (pathconfValue (host.pathconf path name)).toInt) (pf : Platform w)
    (wd : World) : (explainPlatformChrootEv host path pf wd).1.Known := by
  intro name
  rw [(explainPlatformChrootEv_refines hpc path pf wd).cached name]
  exact hlim name

theorem Session.step_known {s : Session w} (h : s.proc.platform.Known) {e : SessionEvent w}
    (he : e.Limited) : (s.step e).proc.platform.Known := by
  cases e with
  | ask req host p xerrno wd => exact h
  | chroot path host wd =>
    by_cases hl : s.proc.platform.chrootListener = true
    · rw [Session.step_chroot hl]
      by_cases hpc : host.havePathconf = true
      · exact chrootEv_known hpc he _ wd
      · rw [explainPlatformChrootEv_nothing hpc]
        exact h
    · rw [Session.step_chroot_deaf hl]
      exact h

theorem Session.run_known {s : Session w} (h : s.proc.platform.Known) {es : List (SessionEvent w)}
    (hes : ∀ e ∈ es, e.Limited) : (after Session.step s es).proc.platform.Known := by
  induction es generalizing s with
  | nil => exact h
  | cons e es ih =>
    exact ih (Session.step_known h (hes e List.mem_cons_self))
      fun e' he' => hes e' (List.mem_cons_of_mem e he')

/-- **Limits are asked for once.**  After a session hears of a chroot to a
directory with three positive limits, none of its explanations asks `pathconf`
for anything, chroots to other such directories or not, and wherever the path
leads. -/
theorem limits_not_asked_again {s : Session w} (hs : s.proc.platform.chrootListener = true)
    {path : CStr} {host : Env w} (hpc : host.havePathconf = true) {wd₀ : World}
    (hlim : (SessionEvent.chroot path host wd₀).Limited) {later : List (SessionEvent w)}
    (hlater : ∀ e ∈ later, e.Limited) (req : Request) (host' : Env w) (p : Pool) (xerrno : Errno)
    (wd : World) {reply : Reply}
    (hreply : (after Session.step s (.chroot path host wd₀ :: later)).proc.ask req host' p xerrno wd =
      some reply) :
    reply.world.pathconfCalls = wd.pathconfCalls := by
  have hfirst : (s.step (.chroot path host wd₀)).proc.platform.Known := by
    rw [Session.step_chroot hs]
    exact chrootEv_known hpc hlim _ wd₀
  have hknown : (after Session.step s (.chroot path host wd₀ :: later)).proc.platform.Known :=
    Session.run_known hfirst hlater
  unfold Proc.ask at hreply
  split at hreply
  · split at hreply
    · cases hreply
      rw [Request.answer_eq]
      split
      · exact explain_pathconfCalls hknown _ wd _ p xerrno
      · rfl
    · cases hreply
  · cases hreply

/-- A session with the engine on. -/
def aSession : Session 64 where
  proc :=
    { (Proc.load onOffCore : Proc 64) with
      platform := explainPlatformInit .initial
      explainer := some ⟨⟨0⟩, lit "explain", explainerFields⟩ }
  answers := []

/-- Chrooted to `/srv`, whose limits are 143 and 4096. -/
theorem limits_not_asked_again_srv :
    ((after Session.step aSession
      [.chroot (lit "/srv") (bareHost.answering (limitsOf 143 1 4096)) .start]).proc.ask
        (.lstat (some (lit "/etc"))) bareHost ⟨7⟩ .enametoolong .start).map
          (fun reply => reply.world.pathconfCalls) = some [] := by
  have hlim : (SessionEvent.chroot (lit "/srv") (bareHost.answering (limitsOf 143 1 4096))
      .start).Limited := by
    intro name
    cases name <;> decide
  cases hreply : (after Session.step aSession
      [.chroot (lit "/srv") (bareHost.answering (limitsOf 143 1 4096)) .start]).proc.ask
        (.lstat (some (lit "/etc"))) bareHost ⟨7⟩ .enametoolong .start with
  | none => cases hreply
  | some reply =>
    exact congrArg some (limits_not_asked_again (s := aSession) rfl rfl hlim (by simp) _ _ _ _ _
      hreply)

end Explain
