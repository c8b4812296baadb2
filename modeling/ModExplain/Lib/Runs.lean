import Mathlib.Data.List.Induction

/-!
# Runs of a component that takes one event after another

`after step s es` is the state after the events `es`, taken in order from `s`.
A fact about runs is proved for one step and lifted:

* `after_inv`: an invariant between the events so far and the state.
* `after_sim`: a relation between two components that take the same events.
* `after_frame`: what some events leave alone, runs of such events leave alone.
-/

namespace Runs

variable {σ τ ε α : Type}

def after (step : σ → ε → σ) (s : σ) (es : List ε) : σ := es.foldl step s

section

variable (step : σ → ε → σ) (s : σ)

@[simp] theorem after_nil : after step s [] = s := rfl

@[simp] theorem after_cons (e : ε) (es : List ε) :
    after step s (e :: es) = after step (step s e) es := rfl

theorem after_append (es es' : List ε) :
    after step s (es ++ es') = after step (after step s es) es' :=
  List.foldl_append

theorem after_snoc (es : List ε) (e : ε) : after step s (es ++ [e]) = step (after step s es) e :=
  after_append step s es [e]

end

variable {step : σ → ε → σ} {s : σ}

theorem after_inv (I : List ε → σ → Prop) (h0 : I [] s)
    (hstep : ∀ es e s, I es s → I (es ++ [e]) (step s e)) (es : List ε) : I es (after step s es) := by
  induction es using List.reverseRecOn with
  | nil => exact h0
  | append_singleton es e ih =>
    rw [after_snoc]
    exact hstep es e _ ih

theorem after_sim {step' : τ → ε → τ} {t : τ} (R : σ → τ → Prop) (h0 : R s t)
    (hstep : ∀ s t e, R s t → R (step s e) (step' t e)) (es : List ε) :
    R (after step s es) (after step' t es) := by
  refine after_inv (fun es s => R s (after step' t es)) h0 (fun es e s hs => ?_) es
  rw [after_snoc]
  exact hstep _ _ _ hs

theorem after_frame (f : σ → α) (es : List ε) (hstep : ∀ s, ∀ e ∈ es, f (step s e) = f s) :
    f (after step s es) = f s := by
  induction es generalizing s with
  | nil => rfl
  | cons e es ih =>
    rw [after_cons, ih fun s e' he => hstep s e' (List.mem_cons_of_mem e he)]
    exact hstep s e List.mem_cons_self

end Runs
