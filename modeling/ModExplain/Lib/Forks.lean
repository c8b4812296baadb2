import ModExplain.Lib.Runs
import Mathlib.Data.Option.Basic

/-!
# A process and the children it forks

A parent takes events; a fork makes a child from the state the parent is in and
from what the child is for, under a number; a child takes events of its own until
it exits.  The events of all of them come interleaved.

* `parent_run`, `child_run`: each process is where its own events alone take it.
* `sim`: two such systems stay related, child by child, when parents and children
  do, each by itself; a fork asks for it only where forks are allowed.
-/

namespace Forks

open Runs

variable {π κ α ε δ : Type}

inductive Event (α ε δ : Type) where
  | parent (e : ε)
  | fork (i : Nat) (a : α)
  | child (i : Nat) (e : δ)
  | exit (i : Nat)

structure System (π κ : Type) where
  parent : π
  child : Nat → Option κ

/-- How the processes take their events; `fork` is given what the child is for, and
may fail. -/
structure Program (π κ α ε δ : Type) where
  parentStep : π → ε → π
  fork : α → π → Option κ
  childStep : κ → δ → κ

namespace System

/-- The child of a number becomes `c`. -/
def set (s : System π κ) (i : Nat) (c : Option κ) : System π κ :=
  { s with child := fun j => if j = i then c else s.child j }

@[simp] theorem set_parent (s : System π κ) (i : Nat) (c : Option κ) : (s.set i c).parent = s.parent :=
  rfl

@[simp] theorem set_child_self (s : System π κ) (i : Nat) (c : Option κ) : (s.set i c).child i = c :=
  if_pos rfl

theorem set_child_ne (s : System π κ) {i j : Nat} (h : j ≠ i) (c : Option κ) :
    (s.set i c).child j = s.child j :=
  if_neg h

end System

def step (P : Program π κ α ε δ) (s : System π κ) : Event α ε δ → System π κ
  | .parent e => { s with parent := P.parentStep s.parent e }
  | .fork i a => s.set i (P.fork a s.parent)
  | .child i e => s.set i ((s.child i).map fun c => P.childStep c e)
  | .exit i => s.set i none

def start (p : π) : System π κ := ⟨p, fun _ => none⟩

/-- The events of the parent. -/
def parentEvents : List (Event α ε δ) → List ε :=
  List.filterMap fun
    | .parent e => some e
    | _ => none

/-- The events of a child. -/
def childEvents (i : Nat) : List (Event α ε δ) → List δ :=
  List.filterMap fun
    | .child j e => if j = i then some e else none
    | _ => none

/-- The event neither makes nor ends a child `i`. -/
def Event.Keeps (i : Nat) : Event α ε δ → Prop
  | .fork j _ => j ≠ i
  | .exit j => j ≠ i
  | _ => True

theorem parentEvents_append (es es' : List (Event α ε δ)) :
    parentEvents (es ++ es') = parentEvents es ++ parentEvents es' :=
  List.filterMap_append

variable {P : Program π κ α ε δ}

theorem parent_run (s : System π κ) (es : List (Event α ε δ)) :
    (after (step P) s es).parent = after P.parentStep s.parent (parentEvents es) := by
  induction es generalizing s with
  | nil => rfl
  | cons e es ih =>
    rw [after_cons, ih]
    cases e <;> rfl

/-- A child is where its own events take it. -/
theorem child_run {i : Nat} {es : List (Event α ε δ)} (hes : ∀ e ∈ es, e.Keeps i) (s : System π κ) :
    (after (step P) s es).child i =
      (s.child i).map fun c => after P.childStep c (childEvents i es) := by
  induction es generalizing s with
  | nil => exact Option.map_id'.symm
  | cons e es ih =>
    rw [after_cons, ih fun e' he' => hes e' (List.mem_cons_of_mem e he')]
    have he := hes e List.mem_cons_self
    cases e with
    | parent e => rfl
    | fork j a =>
      have hne : i ≠ j := fun h => he h.symm
      show ((s.set j _).child i).map _ = _
      rw [System.set_child_ne s hne]
      rfl
    | exit j =>
      have hne : i ≠ j := fun h => he h.symm
      show ((s.set j _).child i).map _ = _
      rw [System.set_child_ne s hne]
      rfl
    | child j e =>
      show ((s.set j _).child i).map _ = _
      by_cases h : j = i
      · subst h
        have hown : childEvents j (.child j e :: es) = e :: childEvents j es :=
          List.filterMap_cons_some (if_pos rfl)
        rw [System.set_child_self, Option.map_map, hown]
        rfl
      · have hother : childEvents i (.child j e :: es) = childEvents i es :=
          List.filterMap_cons_none (if_neg h)
        rw [System.set_child_ne s fun h' => h h'.symm, hother]

/-- The child forked last under a number, from where the parent was. -/
theorem forked_run {i : Nat} {post : List (Event α ε δ)} (hpost : ∀ e ∈ post, e.Keeps i)
    (pre : List (Event α ε δ)) (a : α) (p : π) :
    (after (step P) (start p) (pre ++ .fork i a :: post)).child i =
      (P.fork a (after P.parentStep p (parentEvents pre))).map fun c =>
        after P.childStep c (childEvents i post) := by
  rw [after_append, after_cons, child_run hpost]
  show ((System.set _ i (P.fork a _)).child i).map _ = _
  rw [System.set_child_self, parent_run]
  rfl

/-! ## Simulation -/

variable {π' κ' : Type} {P' : Program π' κ' α ε δ} {p : π} {p' : π'}

/-- Parents and children related, each by itself. -/
structure Related (R : π → π' → Prop) (K : κ → κ' → Prop) (s : System π κ) (s' : System π' κ') :
    Prop where
  parent : R s.parent s'.parent
  child : ∀ i, Option.Rel K (s.child i) (s'.child i)

theorem Related.set {R : π → π' → Prop} {K : κ → κ' → Prop} {s : System π κ} {s' : System π' κ'}
    (h : Related R K s s') (i : Nat) {c : Option κ} {c' : Option κ'} (hc : Option.Rel K c c') :
    Related R K (s.set i c) (s'.set i c') := by
  refine ⟨h.parent, fun j => ?_⟩
  by_cases hj : j = i
  · subst hj
    rwa [System.set_child_self, System.set_child_self]
  · rw [System.set_child_ne s hj, System.set_child_ne s' hj]
    exact h.child j

theorem rel_map {K : κ → κ' → Prop} {f : κ → κ} {f' : κ' → κ'} {c : Option κ}
    {c' : Option κ'} (h : Option.Rel K c c') (hf : ∀ {c c'}, K c c' → K (f c) (f' c')) :
    Option.Rel K (c.map f) (c'.map f') := by
  cases h with
  | none => exact Option.Rel.none
  | some h => exact Option.Rel.some (hf h)

/-- Every fork finds the parent where forks are allowed. -/
def ForksAllowed (ok : List ε → Prop) (es : List (Event α ε δ)) : Prop :=
  ∀ pre i a post, es = pre ++ .fork i a :: post → ok (parentEvents pre)

theorem ForksAllowed.init {ok : List ε → Prop} {es : List (Event α ε δ)} {e : Event α ε δ}
    (h : ForksAllowed ok (es ++ [e])) : ForksAllowed ok es := by
  intro pre i a post heq
  exact h pre i a (post ++ [e]) (by rw [heq]; simp)

theorem ForksAllowed.nil (ok : List ε → Prop) : ForksAllowed ok ([] : List (Event α ε δ)) :=
  fun pre i a post h => absurd (congrArg List.length h) (by simp)

theorem ForksAllowed.snoc {ok : List ε → Prop} {es : List (Event α ε δ)} {e : Event α ε δ}
    (h : ForksAllowed ok es) (he : ∀ i a, e = .fork i a → ok (parentEvents es)) :
    ForksAllowed ok (es ++ [e]) := by
  intro pre i a post heq
  rcases List.eq_nil_or_concat post with rfl | ⟨post, e', rfl⟩
  · obtain ⟨rfl, hlast⟩ := List.append_inj' heq rfl
    exact he i a (List.singleton_inj.1 hlast)
  · rw [List.concat_eq_append, ← List.cons_append, ← List.append_assoc] at heq
    exact h pre i a post (List.append_inj' heq rfl).1

/-- **Simulation.**  `R hist` relates the parents after the parent's events `hist`. -/
theorem sim (R : List ε → π → π' → Prop) (K : κ → κ' → Prop) (ok : List ε → Prop)
    (h0 : R [] p p')
    (hparent : ∀ hist e q q', R hist q q' → R (hist ++ [e]) (P.parentStep q e) (P'.parentStep q' e))
    (hfork : ∀ a hist q q', R hist q q' → ok hist → Option.Rel K (P.fork a q) (P'.fork a q'))
    (hchild : ∀ c c' e, K c c' → K (P.childStep c e) (P'.childStep c' e))
    (es : List (Event α ε δ)) (hes : ForksAllowed ok es) :
    Related (R (parentEvents es)) K (after (step P) (start p) es) (after (step P') (start p') es) := by
  refine after_inv (s := (start p : System π κ))
    (fun es s => ForksAllowed ok es →
      Related (R (parentEvents es)) K s (after (step P') (start p') es))
    (fun _ => ⟨h0, fun _ => Option.Rel.none⟩) (fun es e s ih hall => ?_) es hes
  have h := ih hall.init
  rw [after_snoc, parentEvents_append]
  cases e with
  | parent e => exact ⟨hparent _ e _ _ h.parent, h.child⟩
  | fork i a =>
    have hok : ok (parentEvents es) := hall es i a [] rfl
    have hnone : parentEvents [(.fork i a : Event α ε δ)] = [] := rfl
    rw [hnone, List.append_nil]
    exact h.set i (hfork a _ _ _ h.parent hok)
  | exit i =>
    have hnone : parentEvents [(.exit i : Event α ε δ)] = [] := rfl
    rw [hnone, List.append_nil]
    exact h.set i Option.Rel.none
  | child i e =>
    have hnone : parentEvents [(.child i e : Event α ε δ)] = [] := rfl
    rw [hnone, List.append_nil]
    exact h.set i (rel_map (h.child i) fun hc => hchild _ _ e hc)

end Forks
