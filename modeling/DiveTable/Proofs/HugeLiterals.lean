import DiveTable.Proofs.WholeLiterals

/-! # Literals too large for binary64

Digits that a word has no room for are left out, and three roundings follow: of the significand, of
the power of ten and of their product. All of that together loses less than one part in `2 ^ 51`, so
no literal that is so much above the numbers of binary64 is read:
`Literal.number_eq_none_of_huge`. -/
namespace DiveTable

namespace Binary64

/-- From `2 ^ 1024` on there are no numbers. What is above it by this much is not brought back by
three roundings. -/
def beyond : Nat := twoTo 1024 + twoTo 973

theorem beyond_pos : 0 < beyond := Nat.add_pos_left (twoTo_pos 1024) _

theorem units_lt_of_finite {x : Binary64} (h : x.isFinite = true) : x.units < twoTo (53 + 2045) := by
  have finite : x.code < 2047 * binade := of_decide_eq_true h
  have exponent : x.code / binade < 2047 := Nat.div_lt_of_lt_mul (Nat.mul_comm _ _ ▸ finite)
  have fraction := Nat.mod_lt x.code binade_pos
  rw [twoTo_add, twoTo_53]
  unfold units
  split
  · have one : 1 ≤ twoTo 2045 := twoTo_pos 2045
    calc
      x.code < 2 * binade := by omega
      _ ≤ 2 * binade * twoTo 2045 := Nat.le_mul_of_pos_right _ one
  · calc
      (binade + x.code % binade) * x.spacing < 2 * binade * x.spacing :=
        Nat.mul_lt_mul_of_pos_right (by omega) (twoTo_pos _)
      _ ≤ 2 * binade * twoTo 2045 := Nat.mul_le_mul_left _ (twoTo_le (by omega))

/-- A normal number has lost no more than one part in `2 ^ 53`. -/
theorem le_units_of_normal {s : Bool} {num den : Nat} (pos : 0 < den)
    (normal : binade * den ≤ num) (finite : (ofRatio s num den).isFinite = true) :
    num * (twoTo 53 - 1) ≤ (ofRatio s num den).units * den * twoTo 53 := by
  obtain ⟨near, -⟩ := units_ofRatio_near pos finite
  have step : binade * (den * twoTo (shiftOf num den)) ≤ num := by
    by_cases zero : shiftOf num den = 0
    · rw [zero, twoTo_zero, Nat.mul_one]
      exact normal
    · exact twoTo_shiftOf_le pos zero
  revert near step
  generalize (ofRatio s num den).units * den = worth
  generalize den * twoTo (shiftOf num den) = step
  intro near small
  rw [Nat.mul_sub, Nat.mul_one, Nat.sub_le_iff_le_add]
  calc
    num * twoTo 53 = binade * (2 * num) := by rw [twoTo_53]; ring
    _ ≤ binade * (2 * worth + step) := Nat.mul_le_mul_left _ near
    _ = worth * twoTo 53 + binade * step := by rw [twoTo_53]; ring
    _ ≤ worth * twoTo 53 + num := Nat.add_le_add_left small _

/-- A whole number other than zero is normal. -/
theorem le_units_ofNat {n : Nat} (pos : 0 < n) (finite : (ofNat n).isFinite = true) :
    unitsPerOne ≤ (ofNat n).units ∧
      n * unitsPerOne * (twoTo 53 - 1) ≤ (ofNat n).units * twoTo 53 := by
  have one : twoTo 1074 * 1 ≤ n * unitsPerOne := by
    rw [Nat.mul_one]
    exact Nat.le_mul_of_pos_left _ pos
  have normal : binade * 1 ≤ n * unitsPerOne :=
    Nat.le_trans (Nat.mul_le_mul_right 1 (twoTo_le (by decide))) one
  have kept := le_units_of_normal Nat.one_pos normal finite
  rw [Nat.mul_one] at kept
  exact ⟨le_units_ofRatio Nat.one_pos one finite, kept⟩

/-- Three roundings do not bring a product down to a finite number. -/
theorem mul_lt_of_finite {m n : Nat} (hm : 0 < m) (hn : 0 < n) (fm : (ofNat m).isFinite = true)
    (fn : (ofNat n).isFinite = true) (finite : (ofNat m * ofNat n).isFinite = true) :
    m * n * (tenTo 18 + 1) < beyond * tenTo 18 := by
  obtain ⟨onem, lowm⟩ := le_units_ofNat hm fm
  obtain ⟨onen, lown⟩ := le_units_ofNat hn fn
  have one := unitsPerOne_pos
  change (ofRatio _ ((ofNat m).units * (ofNat n).units) unitsPerOne).isFinite = true at finite
  have normal : binade * unitsPerOne ≤ (ofNat m).units * (ofNat n).units :=
    Nat.mul_le_mul (Nat.le_trans (twoTo_le (by decide)) onem) onen
  have low := le_units_of_normal one normal finite
  have top := units_lt_of_finite finite
  revert lowm lown low top
  generalize (ofRatio _ ((ofNat m).units * (ofNat n).units) unitsPerOne).units = product
  generalize (ofNat m).units = x
  generalize (ofNat n).units = y
  generalize hlost : twoTo 53 - 1 = lost
  intro lowm lown low top
  have bound : m * n * (lost * lost * lost) < twoTo 1024 * (twoTo 53 * twoTo 53 * twoTo 53) := by
    apply Nat.lt_of_mul_lt_mul_right (a := unitsPerOne * unitsPerOne)
    calc
      m * n * (lost * lost * lost) * (unitsPerOne * unitsPerOne) =
          m * unitsPerOne * lost * (n * unitsPerOne * lost) * lost := by ring
      _ ≤ x * twoTo 53 * (y * twoTo 53) * lost :=
        Nat.mul_le_mul_right _ (Nat.mul_le_mul lowm lown)
      _ = x * y * lost * (twoTo 53 * twoTo 53) := by ring
      _ ≤ product * unitsPerOne * twoTo 53 * (twoTo 53 * twoTo 53) := Nat.mul_le_mul_right _ low
      _ = product * (unitsPerOne * (twoTo 53 * twoTo 53 * twoTo 53)) := by ring
      _ < twoTo (53 + 2045) * (unitsPerOne * (twoTo 53 * twoTo 53 * twoTo 53)) :=
        Nat.mul_lt_mul_of_pos_right top
          (Nat.mul_pos one (Nat.mul_pos (Nat.mul_pos (twoTo_pos 53) (twoTo_pos 53)) (twoTo_pos 53)))
      _ = twoTo 1024 * (twoTo 53 * twoTo 53 * twoTo 53) * (unitsPerOne * unitsPerOne) := by
        rw [show 53 + 2045 = 1024 + 1074 from rfl, twoTo_add_1074]
        ring
  have room : twoTo 1024 * (twoTo 53 * twoTo 53 * twoTo 53) * (tenTo 18 + 1) ≤
      beyond * tenTo 18 * (lost * lost * lost) := by
    rw [← hlost]
    decide +kernel
  apply Nat.lt_of_mul_lt_mul_right (a := lost * lost * lost)
  calc
    m * n * (tenTo 18 + 1) * (lost * lost * lost) =
        m * n * (lost * lost * lost) * (tenTo 18 + 1) := by ring
    _ < twoTo 1024 * (twoTo 53 * twoTo 53 * twoTo 53) * (tenTo 18 + 1) :=
      Nat.mul_lt_mul_of_pos_right bound (Nat.succ_pos _)
    _ ≤ beyond * tenTo 18 * (lost * lost * lost) := room

end Binary64

namespace Json

open Binary64

theorem lt_of_word {n : Nat} (word : n < UInt64.size) :
    n * (tenTo 18 + 1) < beyond * tenTo 18 := by
  calc
    n * (tenTo 18 + 1) < UInt64.size * (tenTo 18 + 1) :=
      Nat.mul_lt_mul_of_pos_right word (Nat.succ_pos _)
    _ ≤ beyond * tenTo 18 := by decide +kernel

/-- A significand that is scaled to a number was small enough, or the exponent was below zero. -/
theorem lt_of_scaled {significand : Nat} {exponent : Int} {x : Binary64}
    (word : significand < UInt64.size) (h : scaled significand exponent = some x) :
    significand * tenTo exponent.toNat * (tenTo 18 + 1) < beyond * tenTo 18 := by
  by_cases zero : significand = 0
  · subst zero
    rw [Nat.zero_mul]
    exact lt_of_word word
  have some' := Nat.pos_of_ne_zero zero
  have finite := isFinite_word word
  unfold scaled at h
  dsimp only at h
  by_cases down : exponent < 0
  · rw [Int.toNat_of_nonpos (by omega), tenTo_zero, Nat.mul_one]
    exact lt_of_word word
  · rw [if_neg down] at h
    by_cases few : exponent ≤ 308
    · rw [if_pos few] at h
      by_cases product : (ofNat significand * tenPow exponent.toNat).isFinite = true
      · exact mul_lt_of_finite some' (tenTo_pos _) finite (isFinite_tenPow (by omega)) product
      · rw [if_neg product] at h
        cases h
    · rw [if_neg few] at h
      by_cases isZero : (ofNat significand).isZero = true
      · have code : (ofNat significand).code = 0 := of_decide_eq_true isZero
        have units : (ofNat significand).units = 0 := by
          rw [units, code]
          rfl
        have one := (le_units_ofNat some' finite).1
        have pos := unitsPerOne_pos
        omega
      · rw [if_neg isZero] at h
        cases h

/-! ## Digits that are left out -/

theorem fill_lt {start : Nat} (small : start < UInt64.size) (digits : Digits) :
    (fill start digits).1 < UInt64.size := by
  induction digits generalizing start with
  | nil => exact small
  | cons d digits ih =>
    rw [fill]
    by_cases fit : fits start d.val = true
    · rw [if_pos fit]
      exact ih (of_decide_eq_true fit)
    · rw [if_neg fit]
      exact small

/-- Digits are left out only behind a significand of eighteen digits or more. -/
theorem fill_full (start : Nat) (digits : Digits) :
    (fill start digits).2 = [] ∧ (fill start digits).1 = decimal start digits ∨
      tenTo 18 ≤ (fill start digits).1 := by
  induction digits generalizing start with
  | nil => exact .inl ⟨rfl, rfl⟩
  | cons d digits ih =>
    rw [fill]
    by_cases fit : fits start d.val = true
    · rw [if_pos fit, decimal_cons]
      exact ih _
    · rw [if_neg fit]
      right
      have large : UInt64.size ≤ start * 10 + d.val := by simpa [fits] using fit
      have last := d.isLt
      have size : (tenTo 18 - 1) * 10 + 9 < UInt64.size := by decide
      dsimp only
      omega

/-- What the digits that are left out stand for is less than one of the last place. -/
theorem decimal_lt_fill (start : Nat) (digits : Digits) :
    decimal start digits <
      ((fill start digits).1 + 1) * tenTo (fill start digits).2.length := by
  induction digits generalizing start with
  | nil => exact Nat.lt_of_lt_of_eq (Nat.lt_succ_self start) (Nat.mul_one _).symm
  | cons d digits ih =>
    rw [fill]
    by_cases fit : fits start d.val = true
    · rw [if_pos fit, decimal_cons]
      exact ih (start * 10 + d.val)
    · rw [if_neg fit, decimal_eq, Nat.add_mul, Nat.one_mul]
      exact Nat.add_lt_add_left (decimal_lt _) _

theorem le_fill (start : Nat) (digits : Digits) :
    start * tenTo digits.length ≤ (fill start digits).1 * tenTo (fill start digits).2.length := by
  induction digits generalizing start with
  | nil => exact Nat.le_refl _
  | cons d digits ih =>
    rw [fill]
    by_cases fit : fits start d.val = true
    · rw [if_pos fit]
      calc
        start * tenTo (digits.length + 1) = start * 10 * tenTo digits.length := by
          rw [tenTo_succ]; ring
        _ ≤ (start * 10 + d.val) * tenTo digits.length :=
          Nat.mul_le_mul_right _ (Nat.le_add_right _ _)
        _ ≤ _ := ih _
    · rw [if_neg fit]

theorem succ_mul_le {n : Nat} (h : tenTo 18 ≤ n) : (n + 1) * tenTo 18 ≤ n * (tenTo 18 + 1) := by
  rw [Nat.add_mul, Nat.mul_add, Nat.one_mul, Nat.mul_one]
  exact Nat.add_le_add_left h _

/-- All digits of a literal are worth hardly more than those that are kept. -/
theorem decimal_le_kept (whole fraction : Digits) {w f : Nat × Digits} (hw : fill 0 whole = w)
    (hf : fill w.1 fraction = f) :
    decimal 0 (whole ++ fraction) * tenTo 18 ≤
      f.1 * tenTo (w.2.length + f.2.length) * (tenTo 18 + 1) := by
  have above := decimal_lt_fill w.1 fraction
  have below := le_fill w.1 fraction
  have full := fill_full w.1 fraction
  have front := decimal_lt_fill 0 whole
  rw [hf] at above below full
  rw [hw] at front
  rw [decimal_append, tenTo_add]
  rcases hw ▸ fill_full 0 whole with ⟨none, all⟩ | large
  · rw [none, ← all, List.length_nil, tenTo_zero, Nat.one_mul]
    rcases full with ⟨none', all'⟩ | large'
    · rw [none', all', List.length_nil, tenTo_zero, Nat.mul_one]
      exact Nat.mul_le_mul_left _ (Nat.le_succ _)
    · calc
        decimal w.1 fraction * tenTo 18 ≤ (f.1 + 1) * tenTo f.2.length * tenTo 18 :=
          Nat.mul_le_mul_right _ (Nat.le_of_lt above)
        _ = (f.1 + 1) * tenTo 18 * tenTo f.2.length := by ring
        _ ≤ f.1 * (tenTo 18 + 1) * tenTo f.2.length := Nat.mul_le_mul_right _ (succ_mul_le large')
        _ = f.1 * tenTo f.2.length * (tenTo 18 + 1) := by ring
  · have all : decimal (decimal 0 whole) fraction ≤
        (w.1 + 1) * tenTo w.2.length * tenTo fraction.length := by
      rw [decimal_eq]
      calc
        decimal 0 whole * tenTo fraction.length + decimal 0 fraction ≤
            decimal 0 whole * tenTo fraction.length + 1 * tenTo fraction.length := by
          rw [Nat.one_mul]
          exact Nat.add_le_add_left (Nat.le_of_lt (decimal_lt fraction)) _
        _ = (decimal 0 whole + 1) * tenTo fraction.length := (Nat.add_mul ..).symm
        _ ≤ (w.1 + 1) * tenTo w.2.length * tenTo fraction.length := Nat.mul_le_mul_right _ front
    calc
      decimal (decimal 0 whole) fraction * tenTo 18 ≤
          (w.1 + 1) * tenTo w.2.length * tenTo fraction.length * tenTo 18 :=
        Nat.mul_le_mul_right _ all
      _ = (w.1 + 1) * tenTo 18 * (tenTo w.2.length * tenTo fraction.length) := by ring
      _ ≤ w.1 * (tenTo 18 + 1) * (tenTo w.2.length * tenTo fraction.length) :=
        Nat.mul_le_mul_right _ (succ_mul_le large)
      _ = w.1 * tenTo fraction.length * (tenTo w.2.length * (tenTo 18 + 1)) := by ring
      _ ≤ f.1 * tenTo f.2.length * (tenTo w.2.length * (tenTo 18 + 1)) :=
        Nat.mul_le_mul_right _ below
      _ = f.1 * (tenTo w.2.length * tenTo f.2.length) * (tenTo 18 + 1) := by ring

namespace Literal

/-- So much above the numbers of binary64 that no rounding brings it back. Between `2 ^ 1024` and
this bound a literal may still be read, as the greatest number; and with an exponent of `2 ^ 31` or
more below zero it is read as zero, however many digits it has. -/
structure FarTooLarge (l : Literal) : Prop where
  huge : beyond * l.denominator ≤ l.numerator.natAbs
  counted : ∀ x, l.exponent = some x → x.down = true → x.value < exponentLimit

theorem natAbs_numerator (l : Literal) :
    l.numerator.natAbs = l.significand * (scaling l.exponent).1 := by
  unfold numerator
  dsimp only
  split
  · rw [Int.natAbs_neg, Int.natAbs_natCast]
  · exact Int.natAbs_natCast _

theorem denominator_pos (l : Literal) : 0 < l.denominator :=
  Nat.mul_pos (tenTo_pos _) (scaling_pos _)

/-- What the digits that are kept are scaled to bounds the literal. -/
theorem lt_of_places {l : Literal} {kept left places : Nat}
    (digits : l.significand * tenTo 18 ≤ kept * tenTo left * (tenTo 18 + 1))
    (scale : tenTo left * (scaling l.exponent).1 ≤ tenTo places * l.denominator)
    (h : kept * tenTo places * (tenTo 18 + 1) < beyond * tenTo 18) :
    l.numerator.natAbs < beyond * l.denominator := by
  rw [natAbs_numerator]
  apply Nat.lt_of_mul_lt_mul_right (a := tenTo 18)
  calc
    l.significand * (scaling l.exponent).1 * tenTo 18 =
        l.significand * tenTo 18 * (scaling l.exponent).1 := by ring
    _ ≤ kept * tenTo left * (tenTo 18 + 1) * (scaling l.exponent).1 :=
      Nat.mul_le_mul_right _ digits
    _ = kept * (tenTo 18 + 1) * (tenTo left * (scaling l.exponent).1) := by ring
    _ ≤ kept * (tenTo 18 + 1) * (tenTo places * l.denominator) := Nat.mul_le_mul_left _ scale
    _ = kept * tenTo places * (tenTo 18 + 1) * l.denominator := by ring
    _ < beyond * tenTo 18 * l.denominator :=
      Nat.mul_lt_mul_of_pos_right h l.denominator_pos
    _ = beyond * l.denominator * tenTo 18 := by ring

theorem lt_of_withExponent {l : Literal} {kept left : Nat} {exponent : Int} {n : Number}
    (counted : ∀ x, l.exponent = some x → x.down = true → x.value < exponentLimit)
    (word : kept < UInt64.size)
    (digits : l.significand * tenTo 18 ≤ kept * tenTo left * (tenTo 18 + 1))
    (places : left ≤ exponent + l.fraction.length)
    (h : withExponent l.negative kept exponent l.exponent = some n) :
    l.numerator.natAbs < beyond * l.denominator := by
  have scale {places : Nat} {up down : Nat} (same : scaling l.exponent = (tenTo up, tenTo down))
      (h : left + up ≤ places + (l.fraction.length + down)) :
      tenTo left * (scaling l.exponent).1 ≤ tenTo places * l.denominator := by
    rw [denominator, same, ← tenTo_add, ← tenTo_add, ← tenTo_add]
    exact tenTo_le h
  unfold withExponent at h
  cases isExponent : l.exponent with
  | none =>
    rw [isExponent] at h
    obtain ⟨x, scaled, -⟩ := Option.map_eq_some_iff.1 h
    refine lt_of_places digits (@scale exponent.toNat 0 0 ?_ (by omega)) (lt_of_scaled word scaled)
    rw [isExponent]
    rfl
  | some x =>
    rw [isExponent] at h
    dsimp only at h
    split at h
    · obtain ⟨y, scaled, -⟩ := Option.map_eq_some_iff.1 h
      have bound := lt_of_scaled word scaled
      cases down : x.down with
      | false =>
        rw [down, shift, if_neg Bool.false_ne_true] at bound
        refine lt_of_places digits (@scale _ x.value 0 ?_ (by omega)) bound
        rw [isExponent, scaling, down]
        rfl
      | true =>
        rw [down, shift, if_pos rfl] at bound
        refine lt_of_places digits (@scale _ 0 x.value ?_ (by omega)) bound
        rw [isExponent, scaling, down]
        rfl
    · rename_i large
      have up : x.down = false := by
        apply Bool.eq_false_iff.2
        intro down
        exact large (counted x isExponent down)
      split at h
      · cases h
      · rename_i zero
        have none : kept = 0 := by
          apply Classical.byContradiction
          intro some'
          rw [up] at zero
          exact zero ⟨some', rfl⟩
        rw [none, Nat.zero_mul, Nat.zero_mul, Nat.le_zero] at digits
        have nothing := (Nat.mul_eq_zero.1 digits).resolve_right (Nat.ne_of_gt (tenTo_pos 18))
        rw [natAbs_numerator, nothing, Nat.zero_mul]
        exact Nat.mul_pos beyond_pos l.denominator_pos

theorem number_eq_none_of_huge {l : Literal} (large : l.FarTooLarge) : l.number? = none := by
  apply Option.eq_none_iff_forall_ne_some.2
  intro n read
  apply Nat.not_lt.2 large.huge
  have zero : 0 < UInt64.size := by decide
  have digits := decimal_le_kept (l.lead :: l.more) l.fraction rfl rfl
  have word := fill_lt (fill_lt zero (l.lead :: l.more)) l.fraction
  have whole : decimal 0 (l.lead :: l.more ++ l.fraction) = l.significand := by
    rw [List.cons_append, decimal_cons, Nat.zero_mul, Nat.zero_add]
    rfl
  rw [whole] at digits
  unfold number? at read
  dsimp only at read
  split at read
  · rename_i plain
    obtain ⟨nothing, unscaled, all⟩ := plain
    rw [nothing] at digits word
    refine @lt_of_places l _ _ 0 digits ?_ ?_
    · rw [all, denominator, nothing, unscaled]
      exact Nat.le_refl _
    · rw [tenTo_zero, Nat.mul_one]
      exact lt_of_word word
  · exact lt_of_withExponent large.counted word digits (by omega) read

end Literal

end Json

end DiveTable
