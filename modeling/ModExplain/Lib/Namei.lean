import Mathlib.Data.List.Basic
import Mathlib.Data.List.Induction
import Mathlib.Order.Nat

/-!
# Resolving a path in a tree of directories

A `Tree` says what is found at each list of names below its top directory.
`resolve` follows a path name by name: each name needs what was reached before
it to be a directory that may be searched, and to have the entry.  The first of
these to fail is the resolution's `Obstacle`.

* `resolve_take_error`: what stops a prefix stops the whole path, for the same
  reason.
* `resolve_unsearchable_iff`, `resolve_notDir_iff`: where the obstacle is.
* `enter_sub`: what a step is in a tree that lacks some of the entries.
-/

namespace Namei

/-- What resolution asks of an inode: is it a directory, and may it be searched? -/
class Inode (ι : Type) where
  isDir : ι → Bool
  search : ι → Bool

/-- `node p` is what is found by following `p` from the top. -/
structure Tree (ν ι : Type) [Inode ι] where
  node : List ν → Option ι
  top : ι
  node_nil : node [] = some top
  top_isDir : Inode.isDir top = true

inductive Obstacle where
  | missing
  | notDir
  | unsearchable
deriving DecidableEq, Repr

open Inode

variable {ν ι : Type} [Inode ι] (t : Tree ν ι)

/-- The entry at `p`, the directory above being known to be searchable. -/
def entry (p : List ν) : Except Obstacle ι :=
  match t.node p with
  | some i => .ok i
  | none => .error .missing

/-- One name further: from what `p` resolved to, to `p ++ [x]`. -/
def enter (i : ι) (p : List ν) : Except Obstacle ι :=
  if isDir i = false then .error .notDir
  else if search i = false then .error .unsearchable
  else entry t p

/-- Follows `xs` from the inode `i` reached by `done`. -/
def resolveFrom : List ν → ι → List ν → Except Obstacle ι
  | _, i, [] => .ok i
  | done, i, x :: xs =>
    match enter t i (done ++ [x]) with
    | .error e => .error e
    | .ok j => resolveFrom (done ++ [x]) j xs

def resolve (p : List ν) : Except Obstacle ι := resolveFrom t [] t.top p

variable {t}

theorem resolveFrom_snoc (x : ν) : ∀ (xs done : List ν) (i : ι),
    resolveFrom t done i (xs ++ [x]) =
      match resolveFrom t done i xs with
      | .error e => .error e
      | .ok j => enter t j (done ++ xs ++ [x]) := by
  intro xs
  induction xs with
  | nil =>
    intro done i
    simp only [List.nil_append, resolveFrom, List.append_nil]
    cases enter t i (done ++ [x]) <;> rfl
  | cons y ys ih =>
    intro done i
    simp only [List.cons_append, resolveFrom]
    cases enter t i (done ++ [y]) with
    | error e => rfl
    | ok j => simpa using ih (done ++ [y]) j

/-- A path one name longer. -/
theorem resolve_snoc (p : List ν) (x : ν) :
    resolve t (p ++ [x]) =
      match resolve t p with
      | .error e => .error e
      | .ok i => enter t i (p ++ [x]) := by
  simpa [resolve] using resolveFrom_snoc (t := t) x p [] t.top

theorem resolve_nil : resolve t [] = .ok t.top := rfl

/-- Only a directory that may be searched has a path below it that resolves. -/
theorem resolve_snoc_ok {p : List ν} {x : ν} {j : ι} (h : resolve t (p ++ [x]) = .ok j) :
    ∃ i, resolve t p = .ok i ∧ isDir i = true ∧ search i = true := by
  rw [resolve_snoc] at h
  cases hp : resolve t p with
  | error e =>
    rw [hp] at h
    cases h
  | ok i =>
    rw [hp] at h
    have henter : enter t i (p ++ [x]) = .ok j := h
    unfold enter at henter
    by_cases hd : isDir i = false
    · rw [if_pos hd] at henter
      cases henter
    · by_cases hs : search i = false
      · rw [if_neg hd, if_pos hs] at henter
        cases henter
      · exact ⟨i, rfl, by simpa using hd, by simpa using hs⟩

/-- What a path resolves to is what the tree has there. -/
theorem node_of_resolve {p : List ν} {i : ι} (h : resolve t p = .ok i) : t.node p = some i := by
  induction p using List.reverseRecOn with
  | nil =>
    cases h
    exact t.node_nil
  | append_singleton p x _ =>
    obtain ⟨j, hj, hd, hs⟩ := resolve_snoc_ok h
    rw [resolve_snoc, hj] at h
    have hentry : entry t (p ++ [x]) = .ok i := by simpa [enter, hd, hs] using h
    unfold entry at hentry
    cases hq : t.node (p ++ [x]) with
    | none =>
      rw [hq] at hentry
      cases hentry
    | some m =>
      rw [hq] at hentry
      cases hentry
      rfl

/-- **Errors persist.** -/
theorem resolve_take_error {p : List ν} {i j : Nat} {e : Obstacle} (hij : i ≤ j)
    (h : resolve t (p.take i) = .error e) : resolve t (p.take j) = .error e := by
  induction j, hij using Nat.le_induction with
  | base => exact h
  | succ j _ ih =>
    by_cases hj : j < p.length
    · rw [← List.take_append_getElem hj, resolve_snoc, ih]
    · rw [List.take_of_length_le (by omega)]
      rwa [List.take_of_length_le (by omega)] at ih

/-- Past something that stops it, the path fails with that obstacle. -/
theorem resolve_take_of_enter {p : List ν} {i j : Nat} {n : ι} {e : Obstacle} (hij : i < j)
    (hj : j ≤ p.length) (h : resolve t (p.take i) = .ok n) (he : ∀ q, enter t n q = .error e) :
    resolve t (p.take j) = .error e := by
  apply resolve_take_error (i := i + 1) hij
  rw [← List.take_append_getElem (show i < p.length by omega), resolve_snoc, h]
  exact he _

theorem enter_notDir {n : ι} (h : isDir n = false) (q : List ν) : enter t n q = .error .notDir :=
  if_pos h

theorem enter_unsearchable {n : ι} (hd : isDir n = true) (hs : search n = false) (q : List ν) :
    enter t n q = .error .unsearchable := by
  simp [enter, hd, hs]

/-- Why a name cannot be entered. -/
theorem enter_error {n : ι} {q : List ν} {e : Obstacle} (h : enter t n q = .error e) :
    (isDir n = false ∧ e = .notDir) ∨
    (isDir n = true ∧ search n = false ∧ e = .unsearchable) ∨
    (t.node q = none ∧ e = .missing) := by
  unfold enter at h
  by_cases hd : isDir n = false
  · rw [if_pos hd] at h
    cases h
    exact Or.inl ⟨hd, rfl⟩
  · rw [if_neg hd] at h
    by_cases hs : search n = false
    · rw [if_pos hs] at h
      cases h
      exact Or.inr (Or.inl ⟨by simpa using hd, hs, rfl⟩)
    · rw [if_neg hs] at h
      unfold entry at h
      cases hq : t.node q with
      | none =>
        rw [hq] at h
        cases h
        exact Or.inr (Or.inr ⟨rfl, rfl⟩)
      | some i =>
        rw [hq] at h
        cases h

/-- A path that does not resolve has a first prefix that does not, and the one
before it is where the obstacle is. -/
theorem exists_last_resolved {p : List ν} {e : Obstacle} (h : resolve t p = .error e) :
    ∃ i, ∃ hi : i < p.length, ∃ n, resolve t (p.take i) = .ok n ∧
      enter t n (p.take i ++ [p[i]]) = .error e := by
  induction p using List.reverseRecOn with
  | nil => cases h
  | append_singleton p x ih =>
    rw [resolve_snoc] at h
    cases hp : resolve t p with
    | error e' =>
      rw [hp] at h
      cases h
      obtain ⟨i, hi, n, hn, he⟩ := ih hp
      refine ⟨i, by simp; omega, n, ?_, ?_⟩
      · rwa [List.take_append_of_le_length hi.le]
      · rwa [List.take_append_of_le_length hi.le, List.getElem_append_left hi]
    | ok n =>
      rw [hp] at h
      refine ⟨p.length, by simp, n, ?_, ?_⟩
      · simpa using hp
      · simpa using h

/-- The path is refused for a search permission exactly when one of its proper
prefixes resolves to a directory that may not be searched. -/
theorem resolve_unsearchable_iff {p : List ν} :
    resolve t p = .error .unsearchable ↔
      ∃ i < p.length, ∃ n, resolve t (p.take i) = .ok n ∧ isDir n = true ∧ search n = false := by
  constructor
  · intro h
    obtain ⟨i, hi, n, hn, he⟩ := exists_last_resolved h
    rcases enter_error he with ⟨-, heq⟩ | ⟨hd, hs, -⟩ | ⟨-, heq⟩
    · cases heq
    · exact ⟨i, hi, n, hn, hd, hs⟩
    · cases heq
  · rintro ⟨i, hi, n, hn, hd, hs⟩
    have hres := resolve_take_of_enter hi (Nat.le_refl _) hn (enter_unsearchable hd hs)
    rwa [List.take_length] at hres

/-- The path goes through something that is no directory exactly when one of its
proper prefixes resolves to it. -/
theorem resolve_notDir_iff {p : List ν} :
    resolve t p = .error .notDir ↔
      ∃ i < p.length, ∃ n, resolve t (p.take i) = .ok n ∧ isDir n = false := by
  constructor
  · intro h
    obtain ⟨i, hi, n, hn, he⟩ := exists_last_resolved h
    rcases enter_error he with ⟨hd, -⟩ | ⟨-, -, heq⟩ | ⟨-, heq⟩
    · exact ⟨i, hi, n, hn, hd⟩
    · cases heq
    · cases heq
  · rintro ⟨i, hi, n, hn, hd⟩
    have hres := resolve_take_of_enter hi (Nat.le_refl _) hn (enter_notDir hd)
    rwa [List.take_length] at hres

/-- A prefix of a path that resolves that far is a directory that may be
searched, when the path goes on. -/
theorem resolve_take_lt {p : List ν} {i j : Nat} {m : ι} (hij : i < j) (hj : j ≤ p.length)
    (h : resolve t (p.take j) = .ok m) :
    ∃ n, resolve t (p.take i) = .ok n ∧ isDir n = true ∧ search n = true := by
  have hsucc : ∃ m', resolve t (p.take (i + 1)) = .ok m' := by
    cases hi : resolve t (p.take (i + 1)) with
    | error e =>
      rw [resolve_take_error hij hi] at h
      cases h
    | ok m' => exact ⟨m', rfl⟩
  obtain ⟨m', hm'⟩ := hsucc
  rw [← List.take_append_getElem (show i < p.length by omega)] at hm'
  exact resolve_snoc_ok hm'

/-- A path whose proper prefixes are directories that may be searched resolves
to what the tree has there. -/
theorem resolve_take_of_nodes {p : List ν} {j : Nat} {m : ι} (hj : j ≤ p.length)
    (hpre : ∀ i < j, ∃ n, t.node (p.take i) = some n ∧ isDir n = true ∧ search n = true)
    (hm : t.node (p.take j) = some m) : resolve t (p.take j) = .ok m := by
  induction j generalizing m with
  | zero =>
    rw [List.take_zero] at hm ⊢
    rw [t.node_nil, Option.some.injEq] at hm
    rw [resolve_nil, hm]
  | succ j ih =>
    obtain ⟨n, hn, hd, hs⟩ := hpre j (Nat.lt_succ_self j)
    have hres := ih (by omega) (fun i hi => hpre i (by omega)) hn
    rw [← List.take_append_getElem (show j < p.length by omega)] at hm ⊢
    rw [resolve_snoc, hres]
    simp only [enter, entry, hd, hs, hm, Bool.true_eq_false, if_false]

/-! ## Two trees -/

/-- Everything `t` has is in `t'` too, unchanged. -/
def Sub (t t' : Tree ν ι) : Prop := ∀ p i, t.node p = some i → t'.node p = some i

variable {t' : Tree ν ι}

theorem Sub.top (h : Sub t t') : t.top = t'.top := by
  have htop := h [] t.top t.node_nil
  rw [t'.node_nil, Option.some.injEq] at htop
  exact htop.symm

theorem enter_sub (h : Sub t t') (i : ι) (q : List ν) :
    enter t i q = .error .missing ∨ enter t i q = enter t' i q := by
  unfold enter
  by_cases hd : isDir i = false
  · rw [if_pos hd, if_pos hd]
    exact Or.inr rfl
  rw [if_neg hd, if_neg hd]
  by_cases hs : search i = false
  · rw [if_pos hs, if_pos hs]
    exact Or.inr rfl
  rw [if_neg hs, if_neg hs]
  unfold entry
  cases hq : t.node q with
  | none => exact Or.inl rfl
  | some j =>
    rw [h q j hq]
    exact Or.inr rfl

end Namei
