import DiveTable.Proofs.PlainDecimals
import Mathlib.Algebra.Order.Field.Basic
import Mathlib.Algebra.Order.Ring.Rat
import Mathlib.Algebra.Field.Rat
import Mathlib.Tactic.FieldSimp
import Mathlib.Tactic.Linarith
import Mathlib.Tactic.Positivity

/-! # Exact rounding

A finite number is worth what its bits stand for, and it is shown as the decimal nearest to that:
no number of parts is nearer, and of two that are equally near it is the even one. -/
namespace DiveTable

/-- The whole number nearest to `q`; of two that are equally near, the even one. -/
structure NearestEven (q : ℚ) (n : ℕ) : Prop where
  near : |q - n| ≤ 1 / 2
  even : |q - n| = 1 / 2 → n % 2 = 0

theorem NearestEven.unique {q : ℚ} {m n : ℕ} (hm : NearestEven q m) (hn : NearestEven q n) :
    m = n := by
  -- only neighbours can both be near, and then both are half a unit away
  wlog order : m ≤ n generalizing m n
  · exact (this hn hm (Nat.le_of_not_le order)).symm
  obtain ⟨lowM, -⟩ := abs_le.mp hm.near
  obtain ⟨-, highN⟩ := abs_le.mp hn.near
  obtain ⟨-, highM⟩ := abs_le.mp hm.near
  obtain ⟨lowN, -⟩ := abs_le.mp hn.near
  have close : n ≤ m + 1 := by
    have bound : (n : ℚ) ≤ m + 1 := by linarith
    exact_mod_cast bound
  rcases Nat.lt_or_eq_of_le close with same | next
  · omega
  · have step : (n : ℚ) = m + 1 := by exact_mod_cast next
    have evenM : m % 2 = 0 := by
      apply hm.even
      rw [abs_of_nonneg] <;> linarith
    have evenN : n % 2 = 0 := by
      apply hn.even
      rw [abs_of_nonpos] <;> linarith
    omega

section

variable {num den : ℕ}

theorem quotient_eq (pos : 0 < den) :
    (num / den : ℚ) = ((num / den : ℕ) : ℚ) + ((num % den : ℕ) : ℚ) / den := by
  have whole : (num : ℚ) = den * (num / den : ℕ) + (num % den : ℕ) := by
    exact_mod_cast (Nat.div_add_mod num den).symm
  have nonzero : (den : ℚ) ≠ 0 := by positivity
  rw [whole, add_div, mul_div_cancel_left₀ _ nonzero]

/-- What is left of a quotient in front of a half rounds down. -/
theorem round_of_lt_half (pos : 0 < den) (h : 2 * (num % den) < den) :
    |(num / den : ℚ) - roundHalfEven num den| < 1 / 2 := by
  have excess : ((num % den : ℕ) : ℚ) / den < 1 / 2 := by
    rw [div_lt_div_iff₀ (by positivity) (by norm_num)]
    have cast : (2 : ℚ) * (num % den : ℕ) < den := by exact_mod_cast h
    linarith
  have nonneg : (0 : ℚ) ≤ ((num % den : ℕ) : ℚ) / den := by positivity
  rw [round_of_below h, quotient_eq pos, add_sub_cancel_left, abs_of_nonneg nonneg]
  exact excess

theorem round_of_half_lt (pos : 0 < den) (h : den < 2 * (num % den)) :
    |(num / den : ℚ) - roundHalfEven num den| < 1 / 2 := by
  have more : 1 / 2 < ((num % den : ℕ) : ℚ) / den := by
    rw [div_lt_div_iff₀ (by norm_num) (by positivity)]
    have cast : (den : ℚ) < 2 * (num % den : ℕ) := by exact_mod_cast h
    linarith
  have below : ((num % den : ℕ) : ℚ) / den < 1 := by
    rw [div_lt_one (by positivity)]
    exact_mod_cast Nat.mod_lt num pos
  rw [round_of_above h, quotient_eq pos, Nat.cast_add, Nat.cast_one, abs_lt]
  constructor <;> linarith

theorem nearestEven_round (num : ℕ) (pos : 0 < den) :
    NearestEven (num / den : ℚ) (roundHalfEven num den) := by
  rcases Nat.lt_trichotomy (2 * (num % den)) den with below | tie | above
  · have near := round_of_lt_half pos below
    exact ⟨near.le, fun half => absurd half near.ne⟩
  · refine ⟨?_, fun _ => even_round_of_tie tie⟩
    have half : ((num % den : ℕ) : ℚ) / den = 1 / 2 := by
      have cast : (2 : ℚ) * (num % den : ℕ) = den := by exact_mod_cast tie
      rw [div_eq_div_iff (by positivity) (by norm_num)]
      linarith
    rw [round_of_tie tie, quotient_eq pos, half, Nat.cast_add, abs_le]
    rcases Nat.mod_two_eq_zero_or_one (num / den) with zero | one
    · rw [zero, Nat.cast_zero]
      constructor <;> linarith
    · rw [one, Nat.cast_one]
      constructor <;> linarith
  · have near := round_of_half_lt pos above
    exact ⟨near.le, fun half => absurd half near.ne⟩

theorem nearestEven_iff (num : ℕ) (pos : 0 < den) (n : ℕ) :
    NearestEven (num / den : ℚ) n ↔ n = roundHalfEven num den := by
  constructor
  · intro h
    exact h.unique (nearestEven_round num pos)
  · rintro rfl
    exact nearestEven_round num pos

end

namespace Binary64

def exponentField (x : Binary64) : ℕ := x.code / binade

def fractionField (x : Binary64) : ℕ := x.code % binade

/-- The fraction stands behind a one, or behind a zero if the exponent field is empty. -/
def significand (x : Binary64) : ℚ :=
  (if x.exponentField = 0 then 0 else 1) + x.fractionField / binade

/-- What the bits of a finite number stand for. An empty exponent field means the same power of
two as a field of one. -/
def value (x : Binary64) : ℚ :=
  (if x.negative then -1 else 1) * (x.significand * twoTo (max 1 x.exponentField) / twoTo 1023)

theorem unitsPerOne_eq : unitsPerOne = binade * twoTo 1022 := by
  rw [unitsPerOne, binade, ← twoTo_add]

theorem magnitude_eq (x : Binary64) :
    x.significand * twoTo (max 1 x.exponentField) / twoTo 1023 = x.units / unitsPerOne := by
  have one : (0 : ℚ) < binade := by exact_mod_cast binade_pos
  have low : (0 : ℚ) < twoTo 1022 := by exact_mod_cast twoTo_pos 1022
  have scale : (twoTo 1023 : ℚ) = twoTo 1022 * 2 := by exact_mod_cast twoTo_succ 1022
  have whole : (unitsPerOne : ℚ) = binade * twoTo 1022 := by exact_mod_cast unitsPerOne_eq
  unfold significand units spacing
  by_cases small : x.code < binade
  · have empty : x.exponentField = 0 := Nat.div_eq_of_lt small
    have fraction : x.fractionField = x.code := Nat.mod_eq_of_lt small
    have two : twoTo (max 1 0) = 2 := rfl
    rw [if_pos empty, if_pos small, empty, fraction, scale, whole, two]
    field_simp
    simp
  · have field : 0 < x.exponentField := Nat.div_pos (Nat.le_of_not_lt small) binade_pos
    have power : twoTo x.exponentField = twoTo (x.exponentField - 1) * 2 := by
      rw [← twoTo_succ, Nat.sub_add_cancel field]
    rw [if_neg field.ne', if_neg small, Nat.max_eq_right field, power, scale, whole]
    change _ = (((binade + x.fractionField) * twoTo (x.exponentField - 1) : ℕ) : ℚ) / _
    push_cast
    field_simp

theorem value_eq (x : Binary64) :
    x.value = (if x.negative then -1 else 1) * (x.units / unitsPerOne) := by
  rw [value, magnitude_eq]

theorem abs_sign (negative : Bool) : |(if negative then -1 else 1 : ℚ)| = 1 := by
  cases negative <;> simp

theorem abs_value (x : Binary64) : |x.value| = x.units / unitsPerOne := by
  have nonneg : (0 : ℚ) ≤ x.units / unitsPerOne := by positivity
  rw [value_eq, abs_mul, abs_sign, one_mul, abs_of_nonneg nonneg]

theorem nearestEven_parts (x : Binary64) (places n : ℕ) :
    NearestEven (|x.value| * tenTo places) n ↔ n = x.parts places := by
  have ratio : |x.value| * tenTo places = ((x.units * tenTo places : ℕ) : ℚ) / unitsPerOne := by
    rw [abs_value, Nat.cast_mul, div_mul_eq_mul_div]
  rw [ratio]
  exact nearestEven_iff _ unitsPerOne_pos n

theorem finite_or_special (x : Binary64) :
    x.isFinite = true ∨ x.isInfinite = true ∨ x.isNaN = true := by
  simp only [isFinite, isInfinite, isNaN, decide_eq_true_eq]
  omega

theorem fixedText_of_nan {x : Binary64} (h : x.isNaN = true) (places : ℕ) :
    x.fixedText places = "NaN" := if_pos h

theorem fixedText_of_infinite {x : Binary64} (h : x.isInfinite = true) (places : ℕ) :
    x.fixedText places = if x.negative then "-inf" else "inf" := by
  have number : x.isNaN = false := by
    simp only [isInfinite, isNaN, decide_eq_true_eq, decide_eq_false_iff_not] at h ⊢
    omega
  unfold fixedText signText
  cases x.negative <;> simp [number, h]

end Binary64

namespace PlainDecimal

def value (d : PlainDecimal) : ℚ :=
  (if d.negative then -1 else 1) * (d.parts / tenTo d.fraction.length)

/-- The decimal of the nearest parts is off by half a unit of its last place at most. -/
theorem value_ofParts_near (x : Binary64) (places : ℕ) :
    |(ofParts x.negative places (x.parts places)).value - x.value| ≤ 1 / 2 / tenTo places := by
  have pos : (0 : ℚ) < tenTo places := by exact_mod_cast tenTo_pos places
  have near := ((x.nearestEven_parts places _).2 rfl).near
  have shown : (ofParts x.negative places (x.parts places)).value =
      (if x.negative then -1 else 1) * (x.parts places / tenTo places) := by
    rw [value, parts_ofParts, length_fraction_ofParts]
    rfl
  rw [shown, x.value_eq, ← x.abs_value, ← mul_sub, abs_mul, Binary64.abs_sign, one_mul,
    abs_sub_comm, le_div_iff₀ pos, ← abs_of_pos pos, ← abs_mul, abs_of_pos pos, sub_mul,
    div_mul_cancel₀ _ pos.ne']
  exact near

theorem text_ne_nil (d : PlainDecimal) : d.text ≠ [] := by
  obtain ⟨first, head, -⟩ := head_magnitudeText d
  intro empty
  have read := ofText_text d
  rw [empty] at read
  cases read

end PlainDecimal

theorem optionalText_eq_empty (value : Option Binary64) (places : ℕ) :
    optionalText value places = "" ↔ value = none := by
  cases value with
  | none => exact ⟨fun _ => rfl, fun _ => rfl⟩
  | some x =>
    have shown : x.fixedText places ≠ "" := by
      rcases x.finite_or_special with finite | infinite | nan
      · intro empty
        have text := Binary64.fixedText_eq_text finite places
        rw [empty] at text
        exact PlainDecimal.text_ne_nil _ text.symm
      · rw [Binary64.fixedText_of_infinite infinite]
        cases x.negative <;> decide
      · rw [Binary64.fixedText_of_nan nan]
        decide
    exact ⟨fun empty => absurd empty shown, nofun⟩

/-- A value that is not known is the only one without a text. A finite number is shown as the
decimal with its sign, with the given places and with the parts nearest to it; the others are
named, whatever the places. -/
theorem optionalText_exact (places : ℕ) :
    (∀ value, optionalText value places = "" ↔ value = none) ∧
    (∀ x : Binary64, x.isNaN = true → optionalText (some x) places = "NaN") ∧
    (∀ x : Binary64, x.isInfinite = true →
      optionalText (some x) places = if x.negative then "-inf" else "inf") ∧
    ∀ x : Binary64, x.isFinite = true → ∃ d : PlainDecimal,
      (optionalText (some x) places).toList = d.text ∧ d.negative = x.negative ∧
      d.fraction.length = places ∧
      (∀ n, NearestEven (|x.value| * tenTo places) n ↔ n = d.parts) ∧
      |d.value - x.value| ≤ 1 / 2 / tenTo places := by
  refine ⟨fun value => optionalText_eq_empty value places, ?_, ?_, ?_⟩
  · intro x nan
    exact Binary64.fixedText_of_nan nan places
  · intro x infinite
    exact Binary64.fixedText_of_infinite infinite places
  · intro x finite
    refine ⟨.ofParts x.negative places (x.parts places), Binary64.fixedText_eq_text finite places,
      rfl, PlainDecimal.length_fraction_ofParts _ _ _, ?_, PlainDecimal.value_ofParts_near x places⟩
    intro n
    rw [PlainDecimal.parts_ofParts]
    exact x.nearestEven_parts places n

/-- An eighth stands between two hundredths; minus zero keeps its sign. -/
example : (optionalText (some ⟨false, 0x3FC0000000000000⟩) 2, optionalText (some ⟨true, 0⟩) 2) =
    ("0.12", "-0.00") := by decide +kernel

end DiveTable
