import ModExplain.LongNames
import Mathlib.Algebra.Group.Nat.Defs

/-!
# What the length descriptions say

The two descriptions of ENAMETOOLONG end in two numbers, which are read back from
the text (`lengthText_inj`); no other text of the walk begins like the one about
the path.

    a length description is true of the path and of the limits in force
                                                       (length_texts_truthful)
    a path that does not fit PATH_MAX is reported as such, unless its length is
    PATH_MAX                                           (path_limit_reported_iff)
-/

namespace Explain

variable {w : Nat} {env : Env w}

/-! ## Numbers at the end of a text -/

def IsDigit (b : UInt8) : Prop := 48 ≤ b ∧ b ≤ 57

theorem toNat_of_mem_toDigits {n : Nat} {c : Char} (h : c ∈ Nat.toDigits 10 n) :
    48 ≤ c.toNat ∧ c.toNat ≤ 57 := by
  have hdigit := Nat.isDigit_of_mem_toDigits (by omega) (by omega) h
  simp only [Char.isDigit, Bool.and_eq_true, decide_eq_true_eq] at hdigit
  exact hdigit

theorem isDigit_of_mem_digits {n : Nat} {b : UInt8} (h : b ∈ digits 10 n) : IsDigit b := by
  obtain ⟨c, hc, rfl⟩ := List.mem_map.1 h
  obtain ⟨hlo, hhi⟩ := toNat_of_mem_toDigits hc
  have hval : (UInt8.ofNat c.toNat).toNat = c.toNat := UInt8.toNat_ofNat_of_lt' (by unfold UInt8.size; omega)
  constructor
  · show (48 : UInt8).toNat ≤ (UInt8.ofNat c.toNat).toNat
    rw [hval]
    exact hlo
  · show (UInt8.ofNat c.toNat).toNat ≤ (57 : UInt8).toNat
    rw [hval]
    exact hhi

theorem digits_injective : Function.Injective (digits 10) := by
  have hread : ∀ n, (digits 10 n).map (fun b => Char.ofNat b.toNat) = Nat.toDigits 10 n := by
    intro n
    unfold digits
    rw [List.map_map]
    nth_rewrite 2 [← List.map_id (Nat.toDigits 10 n)]
    apply List.map_congr_left
    intro c hc
    obtain ⟨hlo, hhi⟩ := toNat_of_mem_toDigits hc
    show Char.ofNat (UInt8.ofNat c.toNat).toNat = c
    rw [UInt8.toNat_ofNat_of_lt' (by unfold UInt8.size; omega), Char.ofNat_toNat]
  intro a b h
  have hchars : Nat.toDigits 10 a = Nat.toDigits 10 b := by rw [← hread a, ← hread b, h]
  calc a = Nat.ofDigitChars 10 (Nat.toDigits 10 a) 0 := Nat.ofDigitChars_ten_toDigits.symm
    _ = Nat.ofDigitChars 10 (Nat.toDigits 10 b) 0 := by rw [hchars]
    _ = b := Nat.ofDigitChars_ten_toDigits

/-- A number at the end, after a byte that is no digit. -/
theorem append_digits_inj {x y : CStr} {c : UInt8} (hc : ¬ IsDigit c) {a b : Nat}
    (h : x ++ c :: digits 10 a = y ++ c :: digits 10 b) : x = y ∧ a = b := by
  have hnot : ∀ n, c ∉ digits 10 n := fun n hm => hc (isDigit_of_mem_digits hm)
  -- what one side has more before its number would be digits of the other's
  rcases List.append_eq_append_iff.1 h with ⟨u, rfl, hu⟩ | ⟨u, rfl, hu⟩
  · cases u with
    | nil =>
      rw [List.nil_append, List.cons.injEq] at hu
      exact ⟨(List.append_nil x).symm, digits_injective hu.2⟩
    | cons d u =>
      rw [List.cons_append, List.cons.injEq] at hu
      refine absurd ?_ (hnot a)
      rw [hu.2]
      simp
  · cases u with
    | nil =>
      rw [List.nil_append, List.cons.injEq] at hu
      exact ⟨List.append_nil y, digits_injective hu.2.symm⟩
    | cons d u =>
      rw [List.cons_append, List.cons.injEq] at hu
      refine absurd ?_ (hnot b)
      rw [hu.2]
      simp

/-- The same after a label that does not end in a digit. -/
theorem append_label_digits_inj {x y label : CStr} {c : UInt8} (hc : ¬ IsDigit c) {a b : Nat}
    (h : x ++ (label ++ [c]) ++ digits 10 a = y ++ (label ++ [c]) ++ digits 10 b) :
    x = y ∧ a = b := by
  have hx : ∀ (z : CStr) (n : Nat),
      z ++ (label ++ [c]) ++ digits 10 n = (z ++ label) ++ c :: digits 10 n := by simp
  rw [hx, hx] at h
  obtain ⟨hxy, hab⟩ := append_digits_inj hc h
  exact ⟨List.append_cancel_right hxy, hab⟩

/-- `what (a > max b)` -/
def lengthText (what : CStr) (a b : Nat) : CStr :=
  what ++ lit " (" ++ ul2s a ++ lit " > max " ++ ul2s b ++ lit ")"

theorem lengthText_inj {x y : CStr} {a b a' b' : Nat} (h : lengthText x a b = lengthText y a' b') :
    x = y ∧ a = a' ∧ b = b' := by
  have hparen : ¬ IsDigit 40 := by
    unfold IsDigit
    decide
  have hblank : ¬ IsDigit 32 := by
    unfold IsDigit
    decide
  have hopen : lit " (" = lit " " ++ [40] := by decide
  have hmax : lit " > max " = lit " > max" ++ [32] := by decide
  unfold lengthText ul2s at h
  rw [List.append_cancel_right_eq, hopen, hmax] at h
  obtain ⟨hfirst, hb⟩ := append_label_digits_inj hblank h
  obtain ⟨hxy, ha⟩ := append_label_digits_inj hparen hfirst
  exact ⟨hxy, ha, hb⟩

/-- The path-length description of `s`. -/
def pathLengthText (s : CStr) : Nat → Nat → CStr :=
  lengthText (lit "'" ++ s ++ lit "' exceeds the system maximum path length")

/-- The component-length description of `c`. -/
def componentLengthText (c : CStr) : Nat → Nat → CStr :=
  lengthText (lit "path component '" ++ c ++ lit "' exceeds the system maximum name length")

theorem describeEnametoolongPath_text (s : CStr) (a b : Nat) (flags : UInt32) :
    describeEnametoolongPath env s a b flags = pathLengthText s a b := by
  have hlit : lit "' exceeds the system maximum path length (" =
      lit "' exceeds the system maximum path length" ++ lit " (" := by decide
  rw [describeEnametoolongPath_eq, hlit]
  simp only [pathLengthText, lengthText, List.append_assoc]

theorem describeEnametoolongName_text (c : CStr) (a b : Nat) (flags : UInt32) :
    describeEnametoolongName env c a b flags = componentLengthText c a b := by
  have hlit : lit "' exceeds the system maximum name length (" =
      lit "' exceeds the system maximum name length" ++ lit " (" := by decide
  rw [describeEnametoolongName_eq, hlit]
  simp only [componentLengthText, lengthText, List.append_assoc]

theorem pathLengthText_inj {s s' : CStr} {a b a' b' : Nat}
    (h : pathLengthText s a b = pathLengthText s' a' b') : s = s' ∧ a = a' ∧ b = b' := by
  obtain ⟨hs, ha, hb⟩ := lengthText_inj h
  rw [List.append_cancel_right_eq, List.append_cancel_left_eq] at hs
  exact ⟨hs, ha, hb⟩

theorem componentLengthText_inj {c c' : CStr} {a b a' b' : Nat}
    (h : componentLengthText c a b = componentLengthText c' a' b') : c = c' ∧ a = a' ∧ b = b' := by
  obtain ⟨hc, ha, hb⟩ := lengthText_inj h
  rw [List.append_cancel_right_eq, List.append_cancel_left_eq] at hc
  exact ⟨hc, ha, hb⟩

/-- Of the texts of an ENAMETOOLONG, the path-length descriptions begin with a
quote and the component-length ones with `path component`. -/
theorem pathLengthText_begins (s : CStr) (a b : Nat) : lit "'" <+: pathLengthText s a b := by
  simp only [pathLengthText, lengthText, List.append_assoc]
  exact List.prefix_append _ _

theorem componentLengthText_begins (c : CStr) (a b : Nat) :
    lit "path component '" <+: componentLengthText c a b := by
  simp only [componentLengthText, lengthText, List.append_assoc]
  exact List.prefix_append _ _

theorem pathLengthText_ne_component (s c : CStr) (a b a' b' : Nat) :
    pathLengthText s a b ≠ componentLengthText c a' b' :=
  ne_of_prefixes (by decide) (by decide) (pathLengthText_begins s a b)
    (componentLengthText_begins c a' b')

/-! ## What an ENAMETOOLONG is put down to -/

section

variable {nameMax noTrunc : Long w} {cs : List CStr} {wd : World} {k : Nat} {flags : UInt32}

/-- The walk never speaks of the path's length. -/
theorem haltResult_ne_pathLength (s : CStr) (a b : Nat) :
    (haltResult env .enametoolong flags nameMax noTrunc cs wd k).1 ≠ some (pathLengthText s a b) := by
  intro h
  by_cases hlong : TooLong .enametoolong nameMax noTrunc (cs.getD k [])
  · rw [haltResult_long hlong, Option.some.injEq, describeEnametoolongName_text] at h
    exact pathLengthText_ne_component _ _ _ _ _ _ h.symm
  · have hother : ∀ label ∈ prefixLabels, ¬ label <+: lit "'" ∧ ¬ lit "'" <+: label := by decide
    obtain ⟨label, hmem, hpre⟩ := haltResult_begins (by decide) hlong h
    exact ne_of_prefixes (hother label hmem).1 (hother label hmem).2 hpre
      (pathLengthText_begins s a b) rfl

/-- It speaks of a component's length where it halts for it. -/
theorem haltResult_eq_componentLength {c : CStr} {a b : Nat}
    (h : (haltResult env .enametoolong flags nameMax noTrunc cs wd k).1 =
      some (componentLengthText c a b)) :
    TooLong .enametoolong nameMax noTrunc c ∧ c = cs.getD k [] ∧ a = c.length ∧ b = nameMax.toNat := by
  by_cases hlong : TooLong .enametoolong nameMax noTrunc (cs.getD k [])
  · rw [haltResult_long hlong, Option.some.injEq, describeEnametoolongName_text] at h
    obtain ⟨rfl, rfl, rfl⟩ := componentLengthText_inj h
    exact ⟨hlong, rfl, rfl, rfl⟩
  · exact absurd (componentLengthText_begins c a b) (haltResult_not_component (by decide) hlong h)

end

section PathError

variable (pf : Platform w) (p : Pool) (path : CStr) (flags mode : UInt32) (wd : World)

/-- The text about the path is given exactly when the path is over the limit in
force, and before anything is looked up. -/
theorem explainPathError_pathLength_iff {s : CStr} {a b : Nat} :
    (explainPathError env pf (some p) .enametoolong (some path) flags mode wd).1 =
        some (pathLengthText s a b) ↔
      PathTooLong env pf .enametoolong path ∧ s = path ∧ a = path.length ∧
        b = (sessLimit env pf.platformSessPathMax .pathMax path).toNat := by
  by_cases hlong : PathTooLong env pf .enametoolong path
  · rw [explainPathError_of_long hlong, Option.some.injEq, describeEnametoolongPath_text]
    constructor
    · intro h
      obtain ⟨rfl, rfl, rfl⟩ := pathLengthText_inj h
      exact ⟨hlong, rfl, rfl, rfl⟩
    · rintro ⟨-, rfl, rfl, rfl⟩
      rfl
  · obtain ⟨k, -, -, lw, -, hres⟩ := explainPathError_eq_of_fits hlong p flags mode wd
    rw [hres]
    exact ⟨fun h => absurd h (haltResult_ne_pathLength s a b), fun h => absurd h.1 hlong⟩

/-! ## PATH_MAX -/

/-- **PATH_MAX.**  A path that does not fit the limit `limit`, its NUL counted,
is reported as such without a lookup, except for the path of `limit` bytes: the
code leaves the NUL out. -/
theorem path_limit_reported_iff {limit : Long w}
    (hlimit : (explainPlatformPathMax env pf (some path) wd).1 = limit) (hpos : 0 < limit.toInt) :
    let r := explainPathError env pf (some p) .enametoolong (some path) flags mode wd
    (limit.toNat < path.length + 1 →
      r.1 = some (pathLengthText path path.length limit.toNat) ∧ r.2.lstatCalls = wd.lstatCalls) ↔
    path.length ≠ limit.toNat := by
  intro r
  have hforce : sessLimit env pf.platformSessPathMax .pathMax path = limit := by
    rw [← hlimit]
    exact (platformSessLimit_value _ _ _ _ _).symm
  constructor
  · intro h heq
    obtain ⟨htext, -⟩ := h (by omega)
    obtain ⟨⟨-, -, hover⟩, -⟩ := (explainPathError_pathLength_iff pf p path flags mode wd).1 htext
    rw [hforce] at hover
    omega
  · intro hne hfits
    have hlong : PathTooLong env pf .enametoolong path := by
      unfold PathTooLong
      rw [hforce]
      exact ⟨rfl, toNat_pos_of_toInt_pos hpos, by omega⟩
    refine ⟨(explainPathError_pathLength_iff pf p path flags mode wd).2 ⟨hlong, rfl, rfl, ?_⟩,
      explainPathError_of_long_calls hlong p flags mode wd⟩
    rw [hforce]

/-- Three bytes against a limit of two. -/
theorem path_limit_reported_iff_two :
    (explainPathError bareHost ⟨-1, -1, 2, true⟩ (some ⟨0⟩) .enametoolong (some (lit "/ab")) 0 0
      .start).1 = some (lit "'/ab' exceeds the system maximum path length (3 > max 2)") := by
  have hiff := @path_limit_reported_iff 64 bareHost ⟨-1, -1, 2, true⟩ ⟨0⟩ (lit "/ab") 0 0 .start 2
    (by decide) (by decide)
  rw [(hiff.2 (by decide) (by decide)).1]
  decide

/-- A path of as many bytes as PATH_MAX. -/
def longestPath : CStr := slash :: List.replicate 4095 97

/-- It does not fit, and is not reported: the components are walked. -/
theorem path_limit_unreported :
    ¬ ∀ (env : Env 64) (pf : Platform 64) (path : CStr) (wd : World) (limit : Long 64),
      (explainPlatformPathMax env pf (some path) wd).1 = limit → 0 < limit.toInt →
      limit.toNat < path.length + 1 →
      (explainPathError env pf (some ⟨0⟩) .enametoolong (some path) 0 0 wd).1 =
        some (pathLengthText path path.length limit.toNat) := by
  intro h
  have hlen : longestPath.length = 4096 := by
    unfold longestPath
    rw [List.length_cons, List.length_replicate]
  have htext := h bareHost .initial longestPath .start 4096 rfl (by decide) (by rw [hlen]; decide)
  obtain ⟨⟨-, -, hover⟩, -⟩ :=
    (explainPathError_pathLength_iff .initial ⟨0⟩ longestPath 0 0 .start).1 htext
  have hforce : sessLimit bareHost Platform.initial.platformSessPathMax .pathMax longestPath = 4096 :=
    rfl
  rw [hforce, hlen] at hover
  exact absurd hover (by decide)

end PathError

/-! ## The limits named -/

/-- Below half of the range an `unsigned long` is the `long` it was made from. -/
theorem toInt_of_toNat_lt {x : Long w} {n : Nat} (hx : x.toNat < n) (hn : n < 2 ^ (w - 1)) :
    x.toInt = x.toNat := by
  apply BitVec.toInt_eq_toNat_of_lt
  cases w with
  | zero =>
    have hone : 2 ^ (0 - 1) = 1 := rfl
    omega
  | succ m =>
    rw [Nat.add_sub_cancel] at hn
    have hpow : 2 ^ (m + 1) = 2 * 2 ^ m := by rw [Nat.pow_succ, Nat.mul_comm]
    omega

section Truth

variable (pf : Platform w) (p : Pool) (path : CStr) (flags mode : UInt32) (wd : World)

/-- What is said of the path. -/
theorem pathLength_truthful (hlen : path.length < 2 ^ (w - 1)) {s : CStr} {a b : Nat}
    (h : (explainPathError env pf (some p) .enametoolong (some path) flags mode wd).1 =
      some (pathLengthText s a b)) :
    let pathMax := sessLimit env pf.platformSessPathMax .pathMax path
    s = path ∧ 0 < pathMax.toInt ∧ (b : Int) = pathMax.toInt ∧ a = path.length ∧ b < a := by
  intro pathMax
  obtain ⟨⟨-, hpos, hover⟩, rfl, rfl, rfl⟩ :=
    (explainPathError_pathLength_iff pf p path flags mode wd).1 h
  have hint : pathMax.toInt = pathMax.toNat := toInt_of_toNat_lt hover hlen
  refine ⟨rfl, ?_, hint.symm, rfl, hover⟩
  rw [hint]
  exact Int.natCast_pos.2 hpos

/-- What is said of a component. -/
theorem componentLength_truthful (hcs : ∀ c ∈ pathSplit env path, c.length < 2 ^ (w - 1)) {c : CStr}
    {a b : Nat}
    (h : (explainPathError env pf (some p) .enametoolong (some path) flags mode wd).1 =
      some (componentLengthText c a b)) :
    let nameMax := sessLimit env pf.platformSessNameMax .nameMax path
    let cs := pathSplit env path
    sessLimit env pf.platformSessNoTrunc .noTrunc path = 1 ∧ 0 ≤ nameMax.toInt ∧
      (b : Int) = nameMax.toInt ∧ a = c.length ∧ b < a ∧ ¬ PathTooLong env pf .enametoolong path ∧
      ∃ j, cs[j]? = some c ∧ IsLeast {i | b < (cs.getD i []).length} j ∧
        ∀ i < j, ∃ st, answerAt env cs wd i = .ok st ∧ DirOrLink st := by
  intro nameMax cs
  have hfits : ¬ PathTooLong env pf .enametoolong path := by
    intro hlong
    rw [explainPathError_of_long hlong, Option.some.injEq, describeEnametoolongPath_text] at h
    exact pathLengthText_ne_component _ _ _ _ _ _ h
  obtain ⟨k, hk, hleast, lw, -, hres⟩ := explainPathError_eq_of_fits hfits p flags mode wd
  rw [hres] at h
  obtain ⟨⟨-, hover, hnoTrunc⟩, rfl, rfl, rfl⟩ := haltResult_eq_componentLength h
  have hget : cs[k]? = some (cs.getD k []) := by
    rw [List.getD_eq_getElem _ _ hk, List.getElem?_eq_getElem hk]
  have hint : nameMax.toInt = nameMax.toNat :=
    toInt_of_toNat_lt hover (hcs _ (List.mem_of_getElem? hget))
  have hgo : ∀ i < k, ¬ TooLong .enametoolong nameMax (1 : Long w) (cs.getD i []) ∧
      ¬ StopsAt cs.length (answerAt env cs wd) i := by
    intro i hi
    have hnot : ¬ Halts env .enametoolong nameMax
        (sessLimit env pf.platformSessNoTrunc .noTrunc path) cs wd i :=
      fun hh => absurd (hleast.2 hh) (by omega)
    unfold Halts at hnot
    rw [hnoTrunc, not_or] at hnot
    exact hnot
  refine ⟨hnoTrunc, by omega, hint.symm, rfl, hover, hfits, k, hget, ⟨hover, fun i hi => ?_⟩,
    fun i hi => dirOrLink_of_not_stopsAt (hi.trans hk) (hgo i hi).2⟩
  by_contra hlt
  exact (hgo i (by omega)).1 ⟨rfl, hi, rfl⟩

/-- **Length descriptions are true.**  Whatever the three limits are, negative
ones included, a length description is about a limit that is there and is
exceeded; of components it names the first that is too long, behind directories
and symlinks only. -/
theorem length_texts_truthful (hlen : path.length < 2 ^ (w - 1))
    (hcs : ∀ c ∈ pathSplit env path, c.length < 2 ^ (w - 1)) :
    let pathMax := (explainPlatformPathMax env pf (some path) wd).1
    let nameMax := (explainPlatformNameMax env pf (some path) wd).1
    let noTrunc := (explainPlatformNoTrunc env pf (some path) wd).1
    let cs := pathSplit env path
    let r := (explainPathError env pf (some p) .enametoolong (some path) flags mode wd).1
    (∀ s a b, r = some (pathLengthText s a b) →
      s = path ∧ 0 < pathMax.toInt ∧ (b : Int) = pathMax.toInt ∧ a = path.length ∧ b < a) ∧
    (∀ c a b, r = some (componentLengthText c a b) →
      noTrunc = 1 ∧ 0 ≤ nameMax.toInt ∧ (b : Int) = nameMax.toInt ∧ a = c.length ∧ b < a ∧
      ¬ (0 < pathMax.toNat ∧ pathMax.toNat < path.length) ∧
      ∃ j, cs[j]? = some c ∧ IsLeast {i | b < (cs.getD i []).length} j ∧
        ∀ i < j, ∃ st, answerAt env cs wd i = .ok st ∧ DirOrLink st) ∧
    (pathMax.toInt ≤ 0 → ∀ s a b, r ≠ some (pathLengthText s a b)) ∧
    (nameMax.toInt < 0 ∨ noTrunc ≠ 1 → ∀ c a b, r ≠ some (componentLengthText c a b)) := by
  intro pathMax nameMax noTrunc cs r
  have hpathMax : pathMax = sessLimit env pf.platformSessPathMax .pathMax path :=
    platformSessLimit_value _ _ _ _ _
  have hnameMax : nameMax = sessLimit env pf.platformSessNameMax .nameMax path :=
    platformSessLimit_value _ _ _ _ _
  have hnoTrunc : noTrunc = sessLimit env pf.platformSessNoTrunc .noTrunc path :=
    platformSessLimit_value _ _ _ _ _
  rw [hpathMax, hnameMax, hnoTrunc]
  refine ⟨fun s a b h => pathLength_truthful pf p path flags mode wd hlen h, fun c a b h => ?_,
    fun hneg s a b h => ?_, fun hneg c a b h => ?_⟩
  · obtain ⟨h1, h2, h3, h4, h5, hfits, h6⟩ :=
      componentLength_truthful pf p path flags mode wd hcs h
    exact ⟨h1, h2, h3, h4, h5, fun hover => hfits ⟨rfl, hover⟩, h6⟩
  · obtain ⟨-, hpos, -⟩ := pathLength_truthful pf p path flags mode wd hlen h
    omega
  · obtain ⟨hone, hnonneg, -⟩ := componentLength_truthful pf p path flags mode wd hcs h
    rcases hneg with hneg | hne
    · omega
    · exact hne hone

/-- With names of three bytes `home` is named, the second component. -/
theorem length_texts_truthful_shortNames :
    ∃ j, (pathSplit shortNamesHost (absPath [home]))[j]? = some (lit "home") ∧
      IsLeast {i | 3 < ((pathSplit shortNamesHost (absPath [home])).getD i []).length} j := by
  have htrue := @length_texts_truthful 64 shortNamesHost ⟨3, 1, 4096, true⟩ ⟨0⟩ (absPath [home]) 0 0
    .start (by decide) (by decide)
  obtain ⟨-, -, -, -, -, -, j, hj, hleast, -⟩ := htrue.2.1 (lit "home") 4 3 (by decide)
  exact ⟨j, hj, hleast⟩

end Truth

end Explain
