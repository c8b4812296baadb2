import ModExplain.Host

/-!
# `platform.c`: limits cached at the chroot

The three `platform_sess_*` variables remember what `pathconf` said about the
chroot directory just before `chroot(2)`.  Each accessor answers with its cached
value when that is positive and asks `pathconf` otherwise; the accessors differ
only in the variable and the `pathconf` name (`platformSessLimit`).
-/

namespace Explain

variable {w : Nat}

/-- The file-scope variables, and whether the `core.chroot` listener is
registered. -/
structure Platform (w : Nat) where
  platformSessNameMax : Long w
  platformSessNoTrunc : Long w
  platformSessPathMax : Long w
  chrootListener : Bool
deriving DecidableEq

/-- At load time. -/
def Platform.initial : Platform w := ⟨-1, -1, -1, false⟩

def explainPlatformChrootEv (env : Env w) (path : CStr) (pf : Platform w) (wd : World) :
    Platform w × World :=
  if env.havePathconf then
    let nameMax := pathconf env path .nameMax wd
    let noTrunc := pathconf env path .noTrunc nameMax.2
    let pathMax := pathconf env path .pathMax noTrunc.2
    ({ pf with
        platformSessNameMax := nameMax.1
        platformSessNoTrunc := noTrunc.1
        platformSessPathMax := pathMax.1 }, pathMax.2)
  else (pf, wd)

/-- The common body of the accessors: `cached` is the session's value. -/
def platformSessLimit (env : Env w) (cached : Long w) (name : PathconfName) (path : Option CStr)
    (wd : World) : Long w × World :=
  if env.havePathconf then
    match path with
    | none => (-1, { wd with errno := .einval })
    | some path => if 0 < cached.toInt then (cached, wd) else pathconf env path name wd
  else (-1, { wd with errno := .enosys })

def explainPlatformNameMax (env : Env w) (pf : Platform w) (path : Option CStr) (wd : World) :
    Long w × World :=
  platformSessLimit env pf.platformSessNameMax .nameMax path wd

def explainPlatformNoTrunc (env : Env w) (pf : Platform w) (path : Option CStr) (wd : World) :
    Long w × World :=
  platformSessLimit env pf.platformSessNoTrunc .noTrunc path wd

def explainPlatformPathMax (env : Env w) (pf : Platform w) (path : Option CStr) (wd : World) :
    Long w × World :=
  platformSessLimit env pf.platformSessPathMax .pathMax path wd

/-- Resets the cache and registers the listener. -/
def explainPlatformInit (_pf : Platform w) : Platform w := ⟨-1, -1, -1, true⟩

/-- Unregisters the listener and resets the cache. -/
def explainPlatformFree (_pf : Platform w) : Platform w := ⟨-1, -1, -1, false⟩

/-! ## What an accessor answers -/

/-- The answer of `pathconf` as the `long` it returns. -/
def pathconfValue (res : Except Errno (Long w)) : Long w :=
  match res with
  | .error _ => -1
  | .ok v => v

/-- The limit in force for `path`: the cached value if positive, `pathconf`'s
answer otherwise. -/
def sessLimit (env : Env w) (cached : Long w) (name : PathconfName) (path : CStr) : Long w :=
  if env.havePathconf then
    if 0 < cached.toInt then cached else pathconfValue (env.pathconf path name)
  else -1

theorem sessLimit_of_pos {env : Env w} (hpc : env.havePathconf = true) {cached : Long w}
    (h : 0 < cached.toInt) (name : PathconfName) (path : CStr) :
    sessLimit env cached name path = cached := by
  unfold sessLimit
  rw [if_pos hpc, if_pos h]

theorem sessLimit_of_not_pos {env : Env w} (hpc : env.havePathconf = true) {cached : Long w}
    (h : ¬ 0 < cached.toInt) (name : PathconfName) (path : CStr) :
    sessLimit env cached name path = pathconfValue (env.pathconf path name) := by
  unfold sessLimit
  rw [if_pos hpc, if_neg h]

/-- −1 is no positive limit, whatever the width. -/
theorem neg_one_not_pos : ¬ 0 < (-1 : Long w).toInt := by
  have hones : (-1 : Long w) = BitVec.allOnes w := BitVec.neg_one_eq_allOnes
  rw [hones, BitVec.toInt_allOnes]
  split <;> omega

theorem toNat_pos_of_toInt_pos {x : Long w} (h : 0 < x.toInt) : 0 < x.toNat := by
  have hlt := BitVec.toInt_pos_iff.1 (Int.le_of_lt h)
  rw [BitVec.toInt_eq_toNat_of_lt hlt] at h
  omega

/-- As an `unsigned long` −1 is the largest of all limits. -/
theorem not_neg_one_lt {n : Nat} {x : Long w} (h : n < x.toNat) : ¬ (-1 : Long w).toNat < n := by
  have hones : (-1 : Long w) = BitVec.allOnes w := BitVec.neg_one_eq_allOnes
  have hx := x.isLt
  rw [hones, BitVec.toNat_allOnes]
  omega

theorem platformSessLimit_value (env : Env w) (cached : Long w) (name : PathconfName) (path : CStr)
    (wd : World) :
    (platformSessLimit env cached name (some path) wd).1 = sessLimit env cached name path := by
  unfold platformSessLimit sessLimit
  split
  · dsimp only
    split <;> rfl
  · rfl

theorem platformSessLimit_lstatCalls (env : Env w) (cached : Long w) (name : PathconfName)
    (path : Option CStr) (wd : World) :
    (platformSessLimit env cached name path wd).2.lstatCalls = wd.lstatCalls := by
  unfold platformSessLimit
  split
  · split
    · rfl
    · split <;> rfl
  · rfl

end Explain
