import ModExplain.Platform
import ModExplain.PathSplit
import ModExplain.Lib.Runs

/-!
# Runs of the limit cache

The cache of `platform.c` over any sequence of init, free, `core.chroot` events
and queries.  `Knowledge` is what the cache is for: the last chroot heard of
since the last init or free.  The three variables hold what `pathconf` answered
then (`run_refines`), and a query falls back on the live answer where that is
not positive (`limits_after_chroot`).
-/

namespace Explain

open Runs

variable {w : Nat}

/-- The operations on the component, with what `pathconf` answers at the time. -/
inductive PlatformEvent (w : Nat) where
  | init
  | free
  | chroot (path : CStr) (answers : Pathconf w)
  | query (limit : PathconfName) (path : CStr) (answers : Pathconf w)

def PlatformEvent.isQuery : PlatformEvent w → Bool
  | .query .. => true
  | _ => false

def PlatformEvent.isFree : PlatformEvent w → Bool
  | .free => true
  | _ => false

/-- The variable an accessor looks at. -/
def Platform.cached (pf : Platform w) : PathconfName → Long w
  | .nameMax => pf.platformSessNameMax
  | .noTrunc => pf.platformSessNoTrunc
  | .pathMax => pf.platformSessPathMax

/-- The accessor for each limit. -/
def explainPlatform (env : Env w) : PathconfName → Platform w → Option CStr → World → Long w × World
  | .nameMax => explainPlatformNameMax env
  | .noTrunc => explainPlatformNoTrunc env
  | .pathMax => explainPlatformPathMax env

/-- The environment at a time when `pathconf` answers so. -/
def Env.answering (env : Env w) (answers : Pathconf w) : Env w := { env with pathconf := answers }

/-- The core delivers a `core.chroot` event only to a registered listener. -/
def platformStep (env : Env w) (s : Platform w × World) : PlatformEvent w → Platform w × World
  | .init => (explainPlatformInit s.1, s.2)
  | .free => (explainPlatformFree s.1, s.2)
  | .chroot path answers =>
    if s.1.chrootListener then explainPlatformChrootEv (env.answering answers) path s.1 s.2 else s
  | .query limit path answers =>
    (s.1, (explainPlatform (env.answering answers) limit s.1 (some path) s.2).2)

def platformStart : Platform w × World := (Platform.initial, World.start)

/-! ## The abstract component -/

/-- Whether the component listens, and the last chroot it heard of. -/
structure Knowledge (w : Nat) where
  listening : Bool
  heard : Option (CStr × Pathconf w)

def Knowledge.step (k : Knowledge w) : PlatformEvent w → Knowledge w
  | .init => ⟨true, none⟩
  | .free => ⟨false, none⟩
  | .chroot path answers => if k.listening then { k with heard := some (path, answers) } else k
  | .query .. => k

def Knowledge.start : Knowledge w := ⟨false, none⟩

theorem Knowledge.step_chroot {k : Knowledge w} (h : k.listening = true) (path : CStr)
    (answers : Pathconf w) :
    k.step (.chroot path answers) = { k with heard := some (path, answers) } :=
  if_pos h

theorem Knowledge.step_chroot_deaf {k : Knowledge w} (h : ¬ k.listening = true) (path : CStr)
    (answers : Pathconf w) : k.step (.chroot path answers) = k :=
  if_neg h

/-- What `pathconf` said of the limit at the chroot, −1 before any. -/
def Knowledge.limit (k : Knowledge w) (name : PathconfName) : Long w :=
  match k.heard with
  | none => -1
  | some (path, answers) => pathconfValue (answers path name)

/-- The variables hold what is known. -/
structure Refines (pf : Platform w) (k : Knowledge w) : Prop where
  listener : pf.chrootListener = k.listening
  cached : ∀ name, pf.cached name = k.limit name

variable {env : Env w}

theorem explainPlatform_eq (limit : PathconfName) (pf : Platform w) (path : Option CStr)
    (wd : World) :
    explainPlatform env limit pf path wd = platformSessLimit env (pf.cached limit) limit path wd := by
  cases limit <;> rfl

theorem platformStep_chroot {s : Platform w × World} (h : s.1.chrootListener = true) (path : CStr)
    (answers : Pathconf w) :
    platformStep env s (.chroot path answers) =
      explainPlatformChrootEv (env.answering answers) path s.1 s.2 :=
  if_pos h

theorem platformStep_chroot_deaf {s : Platform w × World} (h : ¬ s.1.chrootListener = true)
    (path : CStr) (answers : Pathconf w) : platformStep env s (.chroot path answers) = s :=
  if_neg h

section Pathconf

variable (hpc : env.havePathconf = true)
include hpc

theorem explainPlatformChrootEv_refines (path : CStr) (pf : Platform w) (wd : World) :
    Refines (explainPlatformChrootEv env path pf wd).1
      ⟨pf.chrootListener, some (path, env.pathconf)⟩ := by
  unfold explainPlatformChrootEv
  rw [if_pos hpc]
  refine ⟨rfl, fun name => ?_⟩
  cases name <;> rfl

theorem platformStep_refines {s : Platform w × World} {k : Knowledge w} (e : PlatformEvent w)
    (h : Refines s.1 k) : Refines (platformStep env s e).1 (k.step e) := by
  cases e with
  | init => exact ⟨rfl, fun name => by cases name <;> rfl⟩
  | free => exact ⟨rfl, fun name => by cases name <;> rfl⟩
  | query limit path answers => exact h
  | chroot path answers =>
    by_cases hl : k.listening = true
    · have hpf : s.1.chrootListener = true := h.listener.trans hl
      rw [Knowledge.step_chroot hl, platformStep_chroot hpf, ← h.listener]
      have hpc' : (env.answering answers).havePathconf = true := hpc
      exact explainPlatformChrootEv_refines hpc' path s.1 s.2
    · have hpf : ¬ s.1.chrootListener = true := by rwa [h.listener]
      rw [Knowledge.step_chroot_deaf hl, platformStep_chroot_deaf hpf]
      exact h

/-- **Refinement.**  After any run the variables hold what is known. -/
theorem run_refines (es : List (PlatformEvent w)) :
    Refines (after (platformStep env) platformStart es).1 (after Knowledge.step .start es) := by
  apply after_sim (s := platformStart) (t := Knowledge.start) fun s k => Refines s.1 k
  · exact ⟨rfl, fun name => by cases name <;> rfl⟩
  · intro s k e h
    exact platformStep_refines hpc e h

end Pathconf

/-! ## After a chroot -/

/-- Only `free` ends the listening. -/
theorem listening_after {mid : List (PlatformEvent w)} (hmid : ∀ e ∈ mid, e.isFree = false)
    {k : Knowledge w} (hk : k.listening = true) : (after Knowledge.step k mid).listening = true := by
  induction mid generalizing k with
  | nil => exact hk
  | cons e mid ih =>
    apply ih fun e he => hmid e (List.mem_cons_of_mem _ he)
    cases e with
    | free => cases hmid .free List.mem_cons_self
    | init => rfl
    | query => exact hk
    | chroot path answers =>
      rw [Knowledge.step_chroot hk]
      exact hk

/-- Queries leave what is known alone. -/
theorem heard_after_queries {post : List (PlatformEvent w)} (hpost : ∀ e ∈ post, e.isQuery = true)
    (k : Knowledge w) : after Knowledge.step k post = k := by
  apply after_frame id post
  intro k e he
  cases e with
  | query => rfl
  | _ => cases hpost _ he

/-- The last chroot delivered is the one heard of. -/
theorem heard_last_chroot (pre : List (PlatformEvent w)) {mid post : List (PlatformEvent w)}
    (hmid : ∀ e ∈ mid, e.isFree = false) (hpost : ∀ e ∈ post, e.isQuery = true) (c : CStr)
    (answers : Pathconf w) :
    (after Knowledge.step .start (pre ++ .init :: mid ++ .chroot c answers :: post)).heard =
      some (c, answers) := by
  rw [after_append, after_cons, heard_after_queries hpost, after_append, after_cons]
  rw [Knowledge.step_chroot (listening_after hmid rfl)]

/-- **Limits after a chroot.**  A positive limit learned at the chroot answers
every later query and the filesystem is not asked; any other is asked for anew
each time. -/
theorem limits_after_chroot (hpc : env.havePathconf = true) (pre : List (PlatformEvent w))
    {mid post : List (PlatformEvent w)} (hmid : ∀ e ∈ mid, e.isFree = false)
    (hpost : ∀ e ∈ post, e.isQuery = true) (c : CStr) (answers : Pathconf w)
    (limit : PathconfName) (q : CStr) (later : Pathconf w) :
    let s := after (platformStep env) platformStart (pre ++ .init :: mid ++ .chroot c answers :: post)
    let r := explainPlatform (env.answering later) limit s.1 (some q) s.2
    let learned := pathconfValue (answers c limit)
    (0 < learned.toInt → r.1 = learned ∧ r.2.pathconfCalls = s.2.pathconfCalls) ∧
    (learned.toInt ≤ 0 → r.1 = pathconfValue (later q limit) ∧
      r.2.pathconfCalls = s.2.pathconfCalls ++ [(q, limit)]) := by
  intro s r learned
  have hcached : s.1.cached limit = learned := by
    rw [(run_refines hpc _).cached]
    unfold Knowledge.limit
    rw [heard_last_chroot pre hmid hpost]
  have hr : r = if 0 < learned.toInt then (learned, s.2)
      else pathconf (env.answering later) q limit s.2 := by
    show explainPlatform (env.answering later) limit s.1 (some q) s.2 = _
    rw [explainPlatform_eq, hcached]
    exact if_pos hpc
  constructor
  · intro hpos
    rw [hr, if_pos hpos]
    exact ⟨rfl, rfl⟩
  · intro hneg
    rw [hr, if_neg (by omega)]
    exact ⟨rfl, rfl⟩

/-- `pathconf` at a time when the limits of every path are these. -/
def limitsOf (nameMax noTrunc pathMax : Long 64) : Pathconf 64 := fun _ name =>
  match name with
  | .nameMax => .ok nameMax
  | .noTrunc => .ok noTrunc
  | .pathMax => .ok pathMax

/-- A chroot to `/srv`, where names have 143 bytes; 255 outside. -/
theorem limits_after_chroot_srv :
    let s := after (platformStep bareHost) platformStart
      ([] ++ .init :: [] ++ .chroot (lit "/srv") (limitsOf 143 1 (-1)) :: [])
    (explainPlatform (bareHost.answering (limitsOf 255 1 4096)) .nameMax s.1 (some (lit "/etc"))
      s.2).1 = 143 := by
  have hkept := (@limits_after_chroot 64 bareHost rfl [] [] [] (by simp) (by simp) (lit "/srv")
    (limitsOf 143 1 (-1)) .nameMax (lit "/etc") (limitsOf 255 1 4096)).1
  exact (hkept (by decide)).1

/-- That the chroot directory has no path limit is forgotten. -/
theorem unlimited_not_kept :
    ¬ ∀ (env : Env 64) (pre mid post : List (PlatformEvent 64)) (c : CStr) (answers : Pathconf 64)
      (limit : PathconfName) (q : CStr) (later : Pathconf 64), env.havePathconf = true →
      (∀ e ∈ mid, e.isFree = false) → (∀ e ∈ post, e.isQuery = true) →
      let s := after (platformStep env) platformStart
        (pre ++ .init :: mid ++ .chroot c answers :: post)
      (explainPlatform (env.answering later) limit s.1 (some q) s.2).1 =
        pathconfValue (answers c limit) := by
  intro h
  have hkept := h bareHost [] [] [] (lit "/srv") (limitsOf 143 1 (-1)) .pathMax (lit "/etc")
    (limitsOf 255 1 4096) rfl (by simp) (by simp)
  exact absurd hkept (by decide)

end Explain
