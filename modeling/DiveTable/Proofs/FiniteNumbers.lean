import DiveTable.Json.Number
import DiveTable.Json.Value
import DiveTable.Proofs.DecimalUnits

/-! # Numbers that are read are finite

The significand is a word, dividing by a power of ten only makes a number smaller, and a product
is looked at before it is handed out. So whatever digits and exponent a number has, it is refused
or finite. -/
namespace DiveTable

namespace Binary64

/-- Rounding does not take a quotient below a power of two. -/
theorem le_units_ofRatio {s : Bool} {num den k : Nat} (pos : 0 < den) (h : twoTo k * den ≤ num)
    (finite : (ofRatio s num den).isFinite = true) : twoTo k ≤ (ofRatio s num den).units := by
  rw [units_ofRatio pos finite]
  by_cases low : k ≤ shiftOf num den
  · rcases @binade_le_kept num den pos with zero | large
    · obtain rfl : k = 0 := by omega
      rw [zero, twoTo_zero, Nat.mul_one]
      refine le_round (Nat.mul_pos pos (twoTo_pos _)) ?_
      rw [zero, twoTo_zero, Nat.mul_one]
      exact h
    · have one : 0 < kept num den := Nat.lt_of_lt_of_le binade_pos large
      exact Nat.le_trans (twoTo_le low) (Nat.le_mul_of_pos_left _ one)
  · have split : k = (k - shiftOf num den) + shiftOf num den := by omega
    have inside : twoTo (k - shiftOf num den) ≤ kept num den := by
      apply le_round (Nat.mul_pos pos (twoTo_pos _))
      calc
        twoTo (k - shiftOf num den) * (den * twoTo (shiftOf num den)) =
            twoTo (k - shiftOf num den + shiftOf num den) * den := by rw [twoTo_add]; ring
        _ = twoTo k * den := by rw [← split]
        _ ≤ num := h
    calc
      twoTo k = twoTo (k - shiftOf num den) * twoTo (shiftOf num den) := by
        rw [← twoTo_add, ← split]
      _ ≤ kept num den * twoTo (shiftOf num den) := Nat.mul_le_mul_right _ inside

theorem isFinite_tenPow {k : Nat} (h : k ≤ 308) : (tenPow k).isFinite = true := by
  rcases Nat.lt_or_eq_of_le h with below | rfl
  · have digits : tenTo k ≤ tenTo 307 := tenTo_le (by omega)
    exact isFinite_ofNat (Nat.lt_of_le_of_lt digits (by decide +kernel)) (Nat.le_refl 1023)
  · decide +kernel

/-- A power of ten is at least two. -/
theorem le_units_tenPow {k : Nat} (pos : 0 < k) (h : k ≤ 308) :
    2 * unitsPerOne ≤ (tenPow k).units := by
  have finite := isFinite_tenPow h
  have ten : 2 ≤ tenTo k := Nat.le_trans (by decide) (tenTo_le pos)
  have bits : twoTo (1 + 1074) * 1 ≤ tenTo k * unitsPerOne := by
    calc
      twoTo (1 + 1074) * 1 = twoTo (1 + 1074) := Nat.mul_one _
      _ = twoTo 1 * unitsPerOne := twoTo_add_1074 1
      _ ≤ tenTo k * unitsPerOne := Nat.mul_le_mul_right unitsPerOne ten
  rw [tenPow, ofNat] at finite ⊢
  have units := le_units_ofRatio Nat.one_pos bits finite
  rw [twoTo_add_1074, show twoTo 1 = 2 from rfl] at units
  exact units

/-- Dividing by two or more leaves a number below the same power of two. -/
theorem div_within {x y : Binary64} {k : Nat} (hx : x.units ≤ twoTo k)
    (hy : 2 * unitsPerOne ≤ y.units) (low : 53 ≤ k) (small : k ≤ 2097) :
    (x / y).isFinite = true ∧ (x / y).units ≤ twoTo k := by
  have one := unitsPerOne_pos
  have pos : 0 < y.units := Nat.lt_of_lt_of_le (Nat.mul_pos Nat.two_pos one) hy
  have size : x.units * unitsPerOne / y.units < twoTo k := by
    rw [Nat.div_lt_iff_lt_mul pos]
    calc
      x.units * unitsPerOne ≤ twoTo k * unitsPerOne := Nat.mul_le_mul_right _ hx
      _ < twoTo k * (2 * unitsPerOne) :=
        Nat.mul_lt_mul_of_pos_left (by omega) (twoTo_pos k)
      _ ≤ twoTo k * y.units := Nat.mul_le_mul_left _ hy
  exact ⟨isFinite_ofRatio _ pos size small, units_ofRatio_le pos size low small⟩

end Binary64

namespace Json

open Ascii Binary64

theorem word_lt {n : Nat} (h : n < UInt64.size) : n < twoTo 64 := h

theorem isFinite_word {n : Nat} (h : n < UInt64.size) : (ofNat n).isFinite = true :=
  isFinite_ofNat (word_lt h) (by decide)

theorem units_word {n : Nat} (h : n < UInt64.size) : (ofNat n).units ≤ twoTo (64 + 1074) := by
  have size : n * unitsPerOne / 1 < twoTo (64 + 1074) := by
    rw [Nat.div_one]
    exact mul_unitsPerOne_lt (word_lt h)
  rw [ofNat]
  exact units_ofRatio_le Nat.one_pos size (by decide) (by decide)

theorem units_scaleDown {f : Binary64} {k : Nat} (h : f.units ≤ twoTo k) (low : 53 ≤ k)
    (small : k ≤ 2097) (steps : Nat) : (scaleDown f steps).units ≤ twoTo k := by
  induction steps generalizing f with
  | zero => exact h
  | succ steps ih =>
    unfold scaleDown
    by_cases zero : f.isZero = true
    · rw [if_pos zero]
      exact h
    · rw [if_neg zero]
      exact ih (div_within h (le_units_tenPow (by decide) (by decide)) low small).2

/-- A significand of one word is scaled to a finite number, or to none. -/
theorem isFinite_of_scaled {significand : Nat} {exponent : Int} {x : Binary64}
    (word : significand < UInt64.size) (h : scaled significand exponent = some x) :
    x.isFinite = true := by
  unfold scaled at h
  dsimp only at h
  by_cases down : exponent < 0
  · rw [if_pos down] at h
    obtain rfl := Option.some.inj h
    have lastStep : 0 < exponent.natAbs - 308 * ((exponent.natAbs - 1) / 308) ∧
        exponent.natAbs - 308 * ((exponent.natAbs - 1) / 308) ≤ 308 := by omega
    have scaledDown := units_scaleDown (units_word word) (by decide) (by decide)
      ((exponent.natAbs - 1) / 308)
    exact (div_within scaledDown (le_units_tenPow lastStep.1 lastStep.2) (by decide)
      (by decide)).1
  · rw [if_neg down] at h
    by_cases small : exponent ≤ 308
    · rw [if_pos small] at h
      by_cases finite : (ofNat significand * tenPow exponent.toNat).isFinite = true
      · rw [if_pos finite] at h
        obtain rfl := Option.some.inj h
        exact finite
      · rw [if_neg finite] at h
        cases h
    · rw [if_neg small] at h
      by_cases zero : (ofNat significand).isZero = true
      · rw [if_pos zero] at h
        obtain rfl := Option.some.inj h
        exact isFinite_word word
      · rw [if_neg zero] at h
        cases h

def Yields {α : Type} (p : α → Prop) (read : Read α) : Prop :=
  ∀ a rest, read = .ok (a, rest) → p a

variable {α β : Type} {p : α → Prop} {q : β → Prop}

theorem yields_error (stop : Stop) : Yields p (.error stop) := by
  intro a rest h
  cases h

theorem yields_ok {a : α} (h : p a) (rest : List UInt8) : Yields p (.ok (a, rest)) := by
  intro b after hb
  cases hb
  exact h

theorem Yields.map {read : Read α} {f : α × List UInt8 → β × List UInt8} (h : Yields p read)
    (hf : ∀ a rest, p a → q (f (a, rest)).1) : Yields q (read.map f) := by
  intro b rest hb
  cases read with
  | error stop => cases hb
  | ok pair =>
    have value : (f pair).1 = b := congrArg Prod.fst (Except.ok.inj hb)
    rw [← value]
    exact hf pair.1 pair.2 (h pair.1 pair.2 rfl)

def Number.IsFinite (n : Number) : Prop := n.toBinary64.isFinite = true

theorem isFinite_natural (n : UInt64) : (Number.natural n).IsFinite := isFinite_word n.toNat_lt

theorem isFinite_negative (n : UInt64) : (Number.negative n).IsFinite := isFinite_word n.toNat_lt

theorem isFinite_binary_neg {negative : Bool} {x : Binary64} (h : x.isFinite = true) :
    (Number.binary (if negative then -x else x)).IsFinite := by
  cases negative with
  | false => exact h
  | true => exact h

theorem isFinite_zero (negative : Bool) : (Number.binary ⟨negative, 0⟩).IsFinite := by
  have code : (⟨negative, 0⟩ : Binary64).code = 0 := rfl
  rw [Number.IsFinite, Number.toBinary64, isFinite, code]
  decide

section

variable (negative : Bool) {significand : Nat} (word : significand < UInt64.size)

include word

theorem finish_finite (exponent : Int) (s : List UInt8) :
    Yields Number.IsFinite (finish negative significand exponent s) := by
  unfold finish
  cases h : scaled significand exponent with
  | none => exact yields_error _
  | some x => exact yields_ok (isFinite_binary_neg (isFinite_of_scaled word h)) s

theorem exponentDigits_finite (exponent : Int) (down : Bool) (value : Nat) (s : List UInt8) :
    Yields Number.IsFinite (exponentDigits negative significand exponent down value s) := by
  induction s generalizing value with
  | nil => exact finish_finite negative word _ _
  | cons b rest ih =>
    unfold exponentDigits
    cases digit? b with
    | none => exact finish_finite negative word _ _
    | some d =>
      dsimp only
      by_cases small : value * 10 + d < exponentLimit
      · rw [if_pos small]
        exact ih _
      · rw [if_neg small]
        by_cases large : significand ≠ 0 ∧ (!down) = true
        · rw [if_pos large]
          exact yields_error _
        · rw [if_neg large]
          exact yields_ok (isFinite_zero negative) _

theorem exponentPart_finite (exponent : Int) (s : List UInt8) :
    Yields Number.IsFinite (exponentPart negative significand exponent s) := by
  unfold exponentPart
  dsimp only
  split
  · exact yields_error _
  · split
    · exact exponentDigits_finite negative word exponent _ _ _
    · exact yields_error _

theorem afterFraction_finite (exponent : Int) (s : List UInt8) :
    Yields Number.IsFinite (afterFraction negative significand exponent s) := by
  unfold afterFraction
  cases s with
  | nil => exact finish_finite negative word exponent []
  | cons b rest =>
    dsimp only
    by_cases letter : isExponentLetter b = true
    · rw [if_pos letter]
      exact exponentPart_finite negative word exponent rest
    · rw [if_neg letter]
      exact finish_finite negative word exponent (b :: rest)

end

theorem fits_word {significand d : Nat} (h : fits significand d = true) :
    significand * 10 + d < UInt64.size := of_decide_eq_true h

theorem fractionDigits_finite (negative : Bool) {significand : Nat}
    (word : significand < UInt64.size) (exponent : Int) (started : Bool) (s : List UInt8) :
    Yields Number.IsFinite (fractionDigits negative significand exponent started s) := by
  induction s generalizing significand exponent started with
  | nil =>
    unfold fractionDigits
    cases started with
    | false => exact yields_error _
    | true => exact finish_finite negative word exponent []
  | cons b rest ih =>
    unfold fractionDigits
    cases digit? b with
    | none =>
      cases started with
      | false => exact yields_error _
      | true => exact afterFraction_finite negative word exponent (b :: rest)
    | some d =>
      dsimp only
      by_cases room : fits significand d = true
      · rw [if_pos room]
        exact ih (fits_word room) _ _
      · rw [if_neg room]
        exact afterFraction_finite negative word exponent _

theorem excessDigits_finite (negative : Bool) {significand : Nat}
    (word : significand < UInt64.size) (exponent : Int) (s : List UInt8) :
    Yields Number.IsFinite (excessDigits negative significand exponent s) := by
  induction s generalizing exponent with
  | nil => exact finish_finite negative word exponent []
  | cons b rest ih =>
    unfold excessDigits
    cases digit? b with
    | some d => exact ih _
    | none =>
      dsimp only
      by_cases dot : b = point
      · rw [if_pos dot]
        exact fractionDigits_finite negative word exponent false rest
      · rw [if_neg dot]
        exact afterFraction_finite negative word exponent (b :: rest)

theorem wholeNumber_finite (negative : Bool) {significand : Nat}
    (word : significand < UInt64.size) : (wholeNumber negative significand).IsFinite := by
  unfold wholeNumber
  cases negative with
  | false => exact isFinite_natural _
  | true =>
    by_cases low : significand = 0 ∨ UInt64.size < 2 * significand
    · simp only [Bool.not_true, Bool.false_eq_true, if_false, if_pos low]
      exact isFinite_word word
    · simp only [Bool.not_true, Bool.false_eq_true, if_false, if_neg low]
      exact isFinite_negative _

theorem afterWhole_finite (negative : Bool) {significand : Nat}
    (word : significand < UInt64.size) (s : List UInt8) :
    Yields Number.IsFinite (afterWhole negative significand s) := by
  unfold afterWhole
  cases s with
  | nil => exact yields_ok (wholeNumber_finite negative word) []
  | cons b rest =>
    dsimp only
    by_cases dot : b = point
    · rw [if_pos dot]
      exact fractionDigits_finite negative word 0 false rest
    · rw [if_neg dot]
      by_cases letter : isExponentLetter b = true
      · rw [if_pos letter]
        exact exponentPart_finite negative word 0 rest
      · rw [if_neg letter]
        exact yields_ok (wholeNumber_finite negative word) (b :: rest)

theorem wholeDigits_finite (negative : Bool) {significand : Nat}
    (word : significand < UInt64.size) (s : List UInt8) :
    Yields Number.IsFinite (wholeDigits negative significand s) := by
  induction s generalizing significand with
  | nil => exact afterWhole_finite negative word []
  | cons b rest ih =>
    unfold wholeDigits
    cases digit? b with
    | none => exact afterWhole_finite negative word (b :: rest)
    | some d =>
      dsimp only
      by_cases room : fits significand d = true
      · rw [if_pos room]
        exact ih (fits_word room)
      · rw [if_neg room]
        exact excessDigits_finite negative word 1 rest

theorem unsignedNumber_finite (negative : Bool) (s : List UInt8) :
    Yields Number.IsFinite (unsignedNumber negative s) := by
  have zero : 0 < UInt64.size := by decide
  unfold unsignedNumber
  split
  · exact yields_error _
  · split
    · exact yields_error _
    · split
      · exact afterWhole_finite negative zero []
      · split
        · exact yields_error _
        · exact afterWhole_finite negative zero _
    · rename_i d _ digit
      have small : d < UInt64.size := Nat.lt_trans (digit_lt digit) (by decide)
      exact wholeDigits_finite negative small _

/-- A number of any length that is read at all is finite. -/
theorem readNumber_finite (s : List UInt8) : Yields Number.IsFinite (readNumber s) := by
  unfold readNumber
  cases s with
  | nil => exact unsignedNumber_finite false []
  | cons b rest =>
    dsimp only
    by_cases sign : b = minus
    · rw [if_pos sign]
      exact unsignedNumber_finite true rest
    · rw [if_neg sign]
      exact unsignedNumber_finite false (b :: rest)

end Json

end DiveTable
