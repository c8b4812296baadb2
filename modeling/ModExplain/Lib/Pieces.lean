import Mathlib.Data.List.TakeWhile

/-!
# Non-empty pieces between separators

`pieces sep xs` are the maximal non-empty runs of `xs` without `sep`, in order.
Cutting at a separator splits the pieces (`pieces_append_sep`), so pieces that
are joined with separators are read back (`pieces_flatMap`).
-/

namespace Pieces

variable {α : Type} [DecidableEq α] {sep : α}

def pieces (sep : α) (xs : List α) : List (List α) := (xs.splitOn sep).filter fun p => !p.isEmpty

@[simp] theorem pieces_nil : pieces sep [] = [] := by
  simp [pieces, List.splitOn_nil]

/-- Pieces do not cross a separator. -/
theorem pieces_append_sep (xs ys : List α) :
    pieces sep (xs ++ sep :: ys) = pieces sep xs ++ pieces sep ys := by
  unfold pieces
  rw [List.splitOn_append_cons_self, List.filter_append]

@[simp] theorem pieces_cons_sep (xs : List α) : pieces sep (sep :: xs) = pieces sep xs := by
  have h := @pieces_append_sep _ _ sep [] xs
  simpa using h

/-- A non-empty run without separators is its only piece. -/
theorem pieces_run {xs : List α} (h : sep ∉ xs) (hne : xs ≠ []) : pieces sep xs = [xs] := by
  unfold pieces
  rw [List.splitOn_eq_singleton h]
  cases xs with
  | nil => exact absurd rfl hne
  | cons x xs => rfl

/-- A run, a separator, more. -/
theorem pieces_run_sep {xs : List α} (h : sep ∉ xs) (hne : xs ≠ []) (ys : List α) :
    pieces sep (xs ++ sep :: ys) = xs :: pieces sep ys := by
  rw [pieces_append_sep, pieces_run h hne]
  rfl

/-- Runs, each after a separator, are read back. -/
theorem pieces_flatMap {xss : List (List α)} (h : ∀ xs ∈ xss, xs ≠ [] ∧ sep ∉ xs) :
    pieces sep (xss.flatMap (sep :: ·)) = xss := by
  induction xss with
  | nil => rfl
  | cons xs xss ih =>
    obtain ⟨hne, hsep⟩ := h xs List.mem_cons_self
    have ih := ih fun ys hys => h ys (List.mem_cons_of_mem _ hys)
    rw [List.flatMap_cons, List.cons_append, pieces_cons_sep]
    cases xss with
    | nil => simpa using pieces_run hsep hne
    | cons ys yss =>
      rw [List.flatMap_cons, List.cons_append] at ih ⊢
      rw [pieces_run_sep hsep hne, ← pieces_cons_sep, ih]

/-- The run at the front of a list that does not begin with a separator is a
piece. -/
theorem pieces_cons {x : α} (hx : x ≠ sep) (xs : List α) :
    ∃ rest, pieces sep (x :: xs) = (x :: xs.takeWhile (· ≠ sep)) :: rest := by
  have hrun : sep ∉ x :: xs.takeWhile (· ≠ sep) := by
    rw [List.mem_cons, not_or]
    refine ⟨hx.symm, fun hm => ?_⟩
    simpa using List.mem_takeWhile_imp hm
  have hsplit : x :: xs = (x :: xs.takeWhile (· ≠ sep)) ++ xs.dropWhile (· ≠ sep) := by
    rw [List.cons_append, List.takeWhile_append_dropWhile]
  cases hd : xs.dropWhile (· ≠ sep) with
  | nil =>
    rw [hd, List.append_nil] at hsplit
    exact ⟨[], by rw [hsplit]; simpa using pieces_run hrun (by simp)⟩
  | cons y ys =>
    have hy : y = sep := by
      have hhead := List.head?_dropWhile_not (· ≠ sep) xs
      rw [hd] at hhead
      simpa using hhead
    subst hy
    rw [hd] at hsplit
    refine ⟨pieces y ys, ?_⟩
    rw [hsplit]
    exact (pieces_run_sep hrun (by simp) ys).trans (by simp)

/-- Only separators have no piece. -/
theorem pieces_eq_nil_iff (xs : List α) : pieces sep xs = [] ↔ ∀ x ∈ xs, x = sep := by
  induction xs with
  | nil => simp
  | cons x xs ih =>
    by_cases hx : x = sep
    · subst hx
      simp [ih]
    · obtain ⟨rest, hrest⟩ := pieces_cons hx xs
      simp [hrest, hx]

/-- One element before a separator or the end is a piece of its own, and the
only one when separators follow to the end. -/
theorem pieces_cons_eq_singleton_iff {x : α} (hx : x ≠ sep) (xs : List α) :
    pieces sep (x :: xs) = [[x]] ↔ ∀ y ∈ xs, y = sep := by
  have hsep : sep ∉ [x] := by simpa using hx.symm
  cases xs with
  | nil => simpa using pieces_run hsep (by simp)
  | cons y ys =>
    by_cases hy : y = sep
    · subst hy
      have hpieces := pieces_run_sep hsep (by simp) ys
      rw [List.singleton_append] at hpieces
      simp [hpieces, pieces_eq_nil_iff]
    · obtain ⟨rest, hrest⟩ := pieces_cons hx (y :: ys)
      simp [hrest, hy]

/-- Pieces are what their name says. -/
theorem mem_pieces {p : List α} : ∀ xs : List α, p ∈ pieces sep xs → p ≠ [] ∧ sep ∉ p ∧ p ⊆ xs := by
  intro xs
  induction hn : xs.length using Nat.strongRecOn generalizing xs with
  | ind n ih =>
    intro hp
    by_cases hsep : sep ∈ xs
    · obtain ⟨as, bs, rfl⟩ := List.append_of_mem hsep
      rw [List.length_append, List.length_cons] at hn
      rw [pieces_append_sep] at hp
      rcases List.mem_append.1 hp with hp | hp
      · obtain ⟨hne, hnot, hsub⟩ := ih as.length (by omega) as rfl hp
        exact ⟨hne, hnot, fun x hx => List.mem_append_left _ (hsub hx)⟩
      · obtain ⟨hne, hnot, hsub⟩ := ih bs.length (by omega) bs rfl hp
        refine ⟨hne, hnot, fun x hx => ?_⟩
        exact List.mem_append_right _ (List.mem_cons_of_mem _ (hsub hx))
    · by_cases hne : xs = []
      · subst hne
        simp at hp
      · rw [pieces_run hsep hne] at hp
        obtain rfl := List.mem_singleton.1 hp
        exact ⟨hne, hsep, fun x hx => hx⟩

omit [DecidableEq α] in
/-- A text of runs, each after a separator, is cut before a separator or at its
end only where it is made of the first few runs. -/
theorem flatMap_eq_append {xss : List (List α)} (h : ∀ xs ∈ xss, sep ∉ xs) {q rest : List α}
    (heq : xss.flatMap (sep :: ·) = q ++ rest) (hrest : rest = [] ∨ rest.head? = some sep) :
    ∃ i ≤ xss.length, q = (xss.take i).flatMap (sep :: ·) := by
  induction xss generalizing q with
  | nil =>
    have hq : q = [] := (List.append_eq_nil_iff.1 heq.symm).1
    exact ⟨0, Nat.le_refl _, hq⟩
  | cons xs xss ih =>
    cases q with
    | nil => exact ⟨0, Nat.zero_le _, rfl⟩
    | cons y q =>
      rw [List.flatMap_cons, List.cons_append, List.cons_append, List.cons.injEq] at heq
      obtain ⟨rfl, heq⟩ := heq
      rcases List.append_eq_append_iff.1 heq with ⟨as, rfl, hmore⟩ | ⟨as, hxs, hrest'⟩
      · obtain ⟨i, hi, hq⟩ := ih (fun xs hxs => h xs (List.mem_cons_of_mem _ hxs)) hmore
        refine ⟨i + 1, Nat.succ_le_succ hi, ?_⟩
        rw [List.take_succ_cons, List.flatMap_cons, ← hq]
        rfl
      · -- the cut is in the first run, so at its end
        cases as with
        | nil =>
          rw [List.append_nil] at hxs
          subst hxs
          exact ⟨1, Nat.succ_le_succ (Nat.zero_le _), by simp⟩
        | cons a as =>
          have hsep : sep = a := by
            rcases hrest with hnil | hhead
            · rw [hnil] at hrest'
              cases hrest'
            · rw [hrest'] at hhead
              exact (Option.some.inj hhead).symm
          refine absurd ?_ (h xs List.mem_cons_self)
          rw [hxs, hsep]
          simp

end Pieces
