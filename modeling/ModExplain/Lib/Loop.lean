/-!
# Counted loops that a `break` may leave

`run body i₀ as s` is the C loop `for (i = i₀; i < n; i++)` over the elements
of an array, the body deciding after each element whether to go on (`cont`) or
to leave the loop (`brk`).  Two rules:

* `run_rule`: an invariant on the states before each iteration, kept by the
  iterations that go on, and a postcondition met by those that leave and by
  the invariant at the end.
* `run_first`: when the states before the iterations are known up to the first
  iteration that does not go on, that iteration's state is the loop's.
-/

namespace Loop

/-- What a loop body decides after one element. -/
inductive Flow (σ : Type) where
  | cont (s : σ)
  | brk (s : σ)

variable {α σ : Type}

/-- The loop from index `i` on. -/
def run (body : Nat → α → σ → Flow σ) : Nat → List α → σ → σ
  | _, [], s => s
  | i, a :: as, s =>
    match body i a s with
    | .cont s' => run body (i + 1) as s'
    | .brk s' => s'

/-- `I` holds where the loop goes on, `Q` where it leaves. -/
def Flow.Ok (I Q : σ → Prop) : Flow σ → Prop
  | .cont s => I s
  | .brk s => Q s

/-- **Invariant rule.**  `I i` is the invariant before the element at offset `i`. -/
theorem run_rule (body : Nat → α → σ → Flow σ) (Q : σ → Prop) :
    ∀ (as : List α) (i₀ : Nat) (I : Nat → σ → Prop) (s : σ),
      (∀ i (hi : i < as.length) s, I i s → (body (i₀ + i) as[i] s).Ok (I (i + 1)) Q) →
      (∀ s, I as.length s → Q s) → I 0 s → Q (run body i₀ as s) := by
  intro as
  induction as with
  | nil =>
    intro i₀ I s _ hend h0
    exact hend s h0
  | cons a as ih =>
    intro i₀ I s hstep hend h0
    have hbody := hstep 0 (by simp) s h0
    simp only [Nat.add_zero, List.getElem_cons_zero] at hbody
    unfold run
    cases hf : body i₀ a s with
    | brk s' =>
      rw [hf] at hbody
      exact hbody
    | cont s' =>
      rw [hf] at hbody
      refine ih (i₀ + 1) (fun i => I (i + 1)) s' (fun i hi t ht => ?_) hend hbody
      rw [show i₀ + 1 + i = i₀ + (i + 1) by omega]
      exact hstep (i + 1) (by simpa using hi) t ht

/-- The loop's states are `st 0, st 1, …` up to offset `k`, where the body
leaves, or ends the array, with `s'`. -/
theorem run_first (body : Nat → α → σ → Flow σ) (as : List α) (st : Nat → σ) (k : Nat) (s' : σ)
    (hk : k < as.length)
    (hcont : ∀ i (hi : i < k), body i as[i] (st i) = .cont (st (i + 1)))
    (hstop : body k as[k] (st k) = .brk s' ∨ k + 1 = as.length ∧ body k as[k] (st k) = .cont s') :
    run body 0 as (st 0) = s' := by
  -- before the element at `i`: still on the known states, or past the last element
  refine run_rule body (fun s => s = s') as 0
    (fun i s => i ≤ k ∧ s = st i ∨ i = k + 1 ∧ k + 1 = as.length ∧ s = s') (st 0) ?_ ?_
    (Or.inl ⟨Nat.zero_le k, rfl⟩)
  · rintro i hi s (⟨hik, rfl⟩ | ⟨rfl, hlen, -⟩)
    · rw [Nat.zero_add]
      rcases Nat.lt_or_eq_of_le hik with hlt | rfl
      · rw [hcont i hlt]
        exact Or.inl ⟨hlt, rfl⟩
      · rcases hstop with hb | ⟨hlen, hc⟩
        · rw [hb]; rfl
        · rw [hc]
          exact Or.inr ⟨rfl, hlen, rfl⟩
    · omega
  · rintro s (⟨hle, -⟩ | ⟨-, -, rfl⟩)
    · omega
    · rfl

end Loop
