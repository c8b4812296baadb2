import Mathlib.Data.List.Basic

/-!
# Texts put together from labels and tokens

A text that runs through fixed labels and variable parts is read back from its
end: a part without the delimiter that stands before it is what follows the last
delimiter (`append_token_inj`).  Texts that begin or end differently are
different (`ne_of_begins`, `last_eq_of_append`).
-/

namespace Tokens

variable {α : Type} {a b x y label : List α} {c : α}

/-- What follows the last `c`. -/
theorem append_token_inj (ha : c ∉ a) (hb : c ∉ b) (h : x ++ c :: a = y ++ c :: b) :
    x = y ∧ a = b := by
  -- what one side has more before its token would be part of the other's
  rcases List.append_eq_append_iff.1 h with ⟨u, rfl, hu⟩ | ⟨u, rfl, hu⟩
  · cases u with
    | nil =>
      rw [List.nil_append, List.cons.injEq] at hu
      exact ⟨(List.append_nil x).symm, hu.2⟩
    | cons d u =>
      rw [List.cons_append, List.cons.injEq] at hu
      refine absurd ?_ ha
      rw [hu.2]
      exact List.mem_append_right u List.mem_cons_self
  · cases u with
    | nil =>
      rw [List.nil_append, List.cons.injEq] at hu
      exact ⟨List.append_nil y, hu.2.symm⟩
    | cons d u =>
      rw [List.cons_append, List.cons.injEq] at hu
      refine absurd ?_ hb
      rw [hu.2]
      exact List.mem_append_right u List.mem_cons_self

/-- The same after a label that ends in `c`. -/
theorem append_label_token_inj (ha : c ∉ a) (hb : c ∉ b)
    (h : x ++ (label ++ [c]) ++ a = y ++ (label ++ [c]) ++ b) : x = y ∧ a = b := by
  have hx (z t : List α) : z ++ (label ++ [c]) ++ t = (z ++ label) ++ c :: t := by simp
  rw [hx, hx] at h
  obtain ⟨hxy, hab⟩ := append_token_inj ha hb h
  exact ⟨List.append_cancel_right hxy, hab⟩

/-- Texts that begin with different labels, neither of which begins the other. -/
theorem ne_of_begins (hab : ¬ a <+: b) (hba : ¬ b <+: a) : a ++ x ≠ b ++ y := by
  intro h
  rcases List.prefix_or_prefix_of_prefix (List.prefix_append a x) (h ▸ List.prefix_append b y) with
    hpre | hpre
  · exact hab hpre
  · exact hba hpre

/-- Equal texts end alike. -/
theorem last_eq_of_append (ha : a ≠ []) (hb : b ≠ []) (h : x ++ a = y ++ b) :
    a.getLast? = b.getLast? := by
  rw [← List.getLast?_append_of_ne_nil x ha, h, List.getLast?_append_of_ne_nil y hb]

end Tokens
