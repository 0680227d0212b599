import DiveTable.Proofs.DecimalCells
import DiveTable.Proofs.DecimalUnits
import DiveTable.Proofs.NumberLiteral

/-! # Literals shown again

A literal without an exponent, with few decimal places and of moderate size, is shown as it was
written, with zeros up to the places of its column: `Literal.shown_as_written`. Its number is so
near that rounding finds the digits again. -/
namespace DiveTable

namespace Json

/-! ## Digits and their number -/

theorem decimal_append (start : Nat) (front rest : Digits) :
    decimal start (front ++ rest) = decimal (decimal start front) rest := List.foldl_append

theorem decimal_zeros (start count : Nat) :
    decimal start (List.replicate count 0) = start * tenTo count := by
  induction count generalizing start with
  | zero => exact (Nat.mul_one start).symm
  | succ count ih =>
    rw [List.replicate_succ, decimal_cons, ih, tenTo_succ]
    change (start * 10 + 0) * tenTo count = start * (tenTo count * 10)
    rw [Nat.add_zero, Nat.mul_assoc, Nat.mul_comm 10]

theorem decimal_eq (start : Nat) (digits : Digits) :
    decimal start digits = start * tenTo digits.length + decimal 0 digits := by
  induction digits generalizing start with
  | nil => exact (Nat.mul_one start).symm
  | cons d digits ih =>
    rw [decimal_cons, decimal_cons, ih, ih (0 * 10 + d.val), List.length_cons, tenTo_succ,
      Nat.zero_mul, Nat.zero_add, Nat.add_mul, Nat.mul_assoc, Nat.mul_comm 10, Nat.add_assoc]

theorem decimal_lt (digits : Digits) : decimal 0 digits < tenTo digits.length := by
  induction digits with
  | nil => exact Nat.one_pos
  | cons d digits ih =>
    have first : d.val * tenTo digits.length ≤ 9 * tenTo digits.length :=
      Nat.mul_le_mul_right _ (Nat.le_of_lt_succ d.isLt)
    rw [decimal_cons, decimal_eq, List.length_cons, tenTo_succ, Nat.zero_mul, Nat.zero_add]
    omega

/-- The digits are found again in front of and behind the point. -/
theorem decimal_div_mod (start : Nat) (digits : Digits) :
    decimal start digits / tenTo digits.length = start ∧
      decimal start digits % tenTo digits.length = decimal 0 digits := by
  have small := decimal_lt digits
  rw [decimal_eq, Nat.mul_comm]
  constructor
  · rw [Nat.mul_add_div (tenTo_pos _), Nat.div_eq_of_lt small, Nat.add_zero]
  · rw [Nat.mul_add_mod, Nat.mod_eq_of_lt small]

def digitChars (digits : Digits) : List Char := digits.map fun d => Nat.digitChar d.val

theorem toDigits_of_pos {start : Nat} (pos : 0 < start) (digits : Digits) :
    Nat.toDigits 10 (decimal start digits) = Nat.toDigits 10 start ++ digitChars digits := by
  induction digits generalizing start with
  | nil => exact (List.append_nil _).symm
  | cons d digits ih =>
    have longer := Nat.toDigits_append_toDigits (by decide) pos d.isLt
    rw [Nat.toDigits_of_lt_base d.isLt, Nat.mul_comm] at longer
    rw [decimal_cons, ih (by omega), ← longer, List.append_assoc]
    rfl

theorem toDigits_decimal {lead : Fin 10} {more : Digits} (h : more = [] ∨ lead ≠ 0) :
    Nat.toDigits 10 (decimal lead.val more) = digitChars (lead :: more) := by
  have first := Nat.toDigits_of_lt_base lead.isLt
  by_cases zero : lead = 0
  · rw [h.resolve_right (by simpa using zero)]
    exact first
  · have pos : 0 < lead.val := Nat.pos_of_ne_zero fun value => zero (Fin.ext value)
    rw [toDigits_of_pos pos, first]
    rfl

theorem zeroPadded_succ {width n : Nat} (h : (Nat.toDigits 10 n).length ≤ width) :
    (zeroPadded (width + 1) n).toList = '0' :: (zeroPadded width n).toList := by
  rw [zeroPadded, zeroPadded, String.toList_ofList, String.toList_ofList, Nat.succ_sub h]
  rfl

/-- Padding brings back the zeros in front of the digits behind a point. -/
theorem zeroPadded_decimal (digits : Digits) (pos : 0 < digits.length) :
    (zeroPadded digits.length (decimal 0 digits)).toList = digitChars digits := by
  induction digits with
  | nil => cases pos
  | cons d digits ih =>
    rw [decimal_cons, Nat.zero_mul, Nat.zero_add]
    by_cases zero : d = 0
    · subst zero
      cases digits with
      | nil => rfl
      | cons e digits =>
        have later : 0 < (e :: digits).length := Nat.succ_pos _
        have short : (Nat.toDigits 10 (decimal 0 (e :: digits))).length ≤ (e :: digits).length :=
          (Nat.length_toDigits_le_iff (by decide) later).2 (decimal_lt _)
        exact (zeroPadded_succ short).trans (congrArg (List.cons '0') (ih later))
    · have whole := toDigits_decimal (.inr zero : digits = [] ∨ d ≠ 0)
      have length : (digitChars (d :: digits)).length = (d :: digits).length := List.length_map _
      rw [zeroPadded, String.toList_ofList, whole, length, Nat.sub_self]
      rfl

/-! ## The number of a small literal -/

theorem fill_of_lt {start : Nat} {digits : Digits} (h : decimal start digits < UInt64.size) :
    fill start digits = (decimal start digits, []) := by
  induction digits generalizing start with
  | nil => rfl
  | cons d digits ih =>
    rw [decimal_cons] at h
    have below := le_decimal (start * 10 + d.val) digits
    have fit : fits start d.val = true := decide_eq_true (Nat.lt_of_le_of_lt below h)
    rw [fill, if_pos fit, ih h]
    rfl

namespace Literal

def significand (l : Literal) : Nat := decimal l.lead.val (l.more ++ l.fraction)

def magnitude (l : Literal) : Binary64 :=
  if l.fraction = [] then .ofNat l.significand
  else .ofNat l.significand / .tenPow l.fraction.length

theorem lt_size {n : Nat} (h : n < twoTo 53) : n < UInt64.size :=
  Nat.lt_trans h (by decide)

theorem toBinary64_wholeNumber (negative : Bool) {n : Nat} (small : n < twoTo 53) :
    (wholeNumber negative n).toBinary64 =
      if negative then -Binary64.ofNat n else Binary64.ofNat n := by
  have back : (UInt64.ofNat n).toNat = n := UInt64.toNat_ofNat_of_lt (lt_size small)
  cases negative with
  | false =>
    change Binary64.ofNat (UInt64.ofNat n).toNat = Binary64.ofNat n
    rw [back]
  | true =>
    unfold wholeNumber
    split
    · rename_i absurd
      cases absurd
    · split
      · rfl
      · change -Binary64.ofNat (UInt64.ofNat n).toNat = -Binary64.ofNat n
        rw [back]

theorem scaled_places {n k : Nat} (pos : 0 < k) (few : k ≤ 308) :
    scaled n (-(k : Int)) = some (.ofNat n / .tenPow k) := by
  have below : -(k : Int) < 0 := by omega
  have steps : (k - 1) / 308 = 0 := Nat.div_eq_of_lt (by omega)
  unfold scaled
  rw [if_pos below, Int.natAbs_neg, Int.natAbs_natCast, steps]
  rfl

/-- Digits that all fit into a word make the number by themselves. -/
theorem number_of_plain {l : Literal} (plain : l.exponent = none)
    (small : l.significand < twoTo 53) (few : l.fraction.length ≤ 308) :
    l.number?.map Number.toBinary64 =
      some (if l.negative then -l.magnitude else l.magnitude) := by
  have all : l.significand = decimal (decimal l.lead.val l.more) l.fraction := decimal_append _ _ _
  have front : decimal 0 (l.lead :: l.more) = decimal l.lead.val l.more := by
    rw [decimal_cons, Nat.zero_mul, Nat.zero_add]
  have fits := lt_size small
  rw [all] at fits
  have whole : fill 0 (l.lead :: l.more) = (decimal l.lead.val l.more, []) := by
    have below := Nat.lt_of_le_of_lt (le_decimal _ _) fits
    rw [fill_of_lt (by rwa [front]), front]
  have filled : fill (decimal l.lead.val l.more) l.fraction = (l.significand, []) := by
    rw [fill_of_lt fits, all]
  unfold Literal.number? magnitude
  dsimp only
  rw [whole, plain]
  dsimp only
  by_cases none : l.fraction = []
  · have same : decimal l.lead.val l.more = l.significand := by rw [all, none]; rfl
    rw [if_pos ⟨none, rfl, rfl⟩, if_pos none, same]
    exact congrArg some (toBinary64_wholeNumber l.negative small)
  · have pos : 0 < l.fraction.length := List.length_pos_iff.2 none
    rw [if_neg (by simp [none]), if_neg none, filled]
    have exponent : ((([] : Digits).length : Int) - (l.fraction.length - ([] : Digits).length)) =
        -(l.fraction.length : Int) := by
      simp
    change (scaledNumber l.negative l.significand _).map _ = _
    rw [exponent, scaledNumber, scaled_places pos few]
    rfl

/-! ## The text of a small literal -/

/-- A literal that a column with the given places has room for: without an exponent, with no more
places than those, and below `10 ^ 13`. -/
structure Showable (places : Nat) (l : Literal) : Prop where
  plain : l.exponent = none
  few : l.fraction.length ≤ places
  small : l.significand < tenTo 13 * tenTo l.fraction.length

/-- The literal as it is written, with zeros up to the given places. A point is put behind the
whole digits if there is none. -/
def padded (places : Nat) (l : Literal) : List Char :=
  l.bytes.map (fun b => Char.ofNat b.toNat) ++
    ((if l.fraction = [] then ['.'] else []) ++ List.replicate (places - l.fraction.length) '0')

def filled (places : Nat) (l : Literal) : Digits :=
  l.fraction ++ List.replicate (places - l.fraction.length) 0

def signChars (l : Literal) : List Char := if l.negative then ['-'] else []

theorem chars_digitBytes (digits : Digits) :
    (digitBytes digits).map (fun b => Char.ofNat b.toNat) = digitChars digits := by
  have one : ∀ d : Fin 10, Char.ofNat (digitByte d).toNat = Nat.digitChar d.val := by decide
  rw [digitBytes, List.map_map]
  exact List.map_congr_left fun d _ => one d

theorem digitChars_append (front rest : Digits) :
    digitChars (front ++ rest) = digitChars front ++ digitChars rest := List.map_append

theorem digitChars_zeros (count : Nat) :
    digitChars (List.replicate count 0) = List.replicate count '0' := List.map_replicate

theorem padded_of_plain {l : Literal} (plain : l.exponent = none) (places : Nat) :
    l.padded places =
      l.signChars ++ (digitChars (l.lead :: l.more) ++ '.' :: digitChars (l.filled places)) := by
  have sign : l.bytes.map (fun b => Char.ofNat b.toNat) =
      l.signChars ++ l.magnitudeBytes.map fun b => Char.ofNat b.toNat := by
    unfold bytes signChars
    cases l.negative <;> rfl
  have none : exponentBytes l.exponent = [] := by rw [plain]; rfl
  rw [padded, sign, magnitudeBytes, none, List.append_nil, List.map_append, chars_digitBytes,
    filled, digitChars_append, digitChars_zeros, List.append_assoc, List.append_assoc]
  unfold fractionBytes
  by_cases whole : l.fraction = []
  · rw [if_pos whole, if_pos whole, whole]
    rfl
  · rw [if_neg whole, if_neg whole, List.map_cons, chars_digitBytes]
    rfl

theorem length_filled {l : Literal} {places : Nat} (few : l.fraction.length ≤ places) :
    (l.filled places).length = places := by
  rw [filled, List.length_append, List.length_replicate, Nat.add_sub_cancel' few]

theorem decimal_filled (l : Literal) (places : Nat) :
    decimal (decimal l.lead.val l.more) (l.filled places) =
      l.significand * tenTo (places - l.fraction.length) := by
  rw [filled, decimal_append, decimal_zeros, significand, decimal_append]

section

variable {l : Literal} {places : Nat}

theorem significand_lt (h : l.Showable places) (most : places ≤ 2) :
    l.significand * tenTo (places - l.fraction.length) < Binary64.binade := by
  calc
    l.significand * tenTo (places - l.fraction.length) <
        tenTo 13 * tenTo l.fraction.length * tenTo (places - l.fraction.length) :=
      Nat.mul_lt_mul_of_pos_right h.small (tenTo_pos _)
    _ = tenTo 13 * tenTo places := by
      rw [Nat.mul_assoc, ← tenTo_add, Nat.add_sub_cancel' h.few]
    _ ≤ tenTo 13 * tenTo 2 := Nat.mul_le_mul_left _ (tenTo_le most)
    _ < Binary64.binade := by decide

theorem significand_lt_word (h : l.Showable places) (most : places ≤ 2) :
    l.significand < twoTo 53 := by
  calc
    l.significand ≤ l.significand * tenTo (places - l.fraction.length) :=
      Nat.le_mul_of_pos_right _ (tenTo_pos _)
    _ < Binary64.binade := significand_lt h most
    _ < twoTo 53 := twoTo_lt (by decide)

theorem parts_magnitude (h : l.Showable places) (most : places ≤ 2) :
    l.magnitude.isFinite = true ∧
      l.magnitude.parts places = decimal (decimal l.lead.val l.more) (l.filled places) := by
  rw [decimal_filled, magnitude]
  by_cases whole : l.fraction = []
  · have fits := significand_lt_word h most
    rw [if_pos whole, whole]
    exact ⟨Binary64.isFinite_ofNat fits (by decide), Binary64.parts_ofNat fits places⟩
  · rw [if_neg whole]
    have places : places ≤ 15 := Nat.le_trans most (by decide)
    exact Binary64.parts_div_tenPow h.few places (significand_lt h most)

theorem negative_magnitude (l : Literal) : l.magnitude.negative = false := by
  unfold magnitude
  split <;> rfl

/-- Whole digits and decimal places are found again in the parts that they make. -/
theorem toList_fixedText {x : Binary64} (finite : x.isFinite = true) (pos : 0 < places)
    (few : l.fraction.length ≤ places)
    (parts : x.parts places = decimal (decimal l.lead.val l.more) (l.filled places)) :
    (x.fixedText places).toList = x.signText.toList ++
      (digitChars (l.lead :: l.more) ++ '.' :: digitChars (l.filled places)) := by
  have length := length_filled few
  obtain ⟨front, rest⟩ := decimal_div_mod (decimal l.lead.val l.more) (l.filled places)
  have padded := zeroPadded_decimal (l.filled places) (by omega)
  rw [length] at front rest padded
  rw [Binary64.fixedText_of_finite finite, String.toList_append, toList_pointed pos, parts, front,
    rest, padded, toDigits_decimal l.noZeroInFront]

/-- A literal that a column has room for is read as a number that is shown as the literal was
written, the sign of a zero included. -/
theorem shown_as_written (h : l.Showable places) (pos : 0 < places) (most : places ≤ 2) :
    ∃ n, l.number? = some n ∧ (n.toBinary64.fixedText places).toList = l.padded places := by
  have few := h.few
  have number := number_of_plain h.plain (significand_lt_word h most) (by omega)
  obtain ⟨n, read, value⟩ := Option.map_eq_some_iff.1 number
  obtain ⟨finite, parts⟩ := parts_magnitude h most
  have unsigned := negative_magnitude l
  refine ⟨n, read, ?_⟩
  rw [value, padded_of_plain h.plain]
  unfold signChars
  cases l.negative with
  | false =>
    have sign : l.magnitude.signText.toList = [] := by
      rw [Binary64.signText, unsigned]
      rfl
    exact (toList_fixedText finite pos few parts).trans (congrArg (· ++ _) sign)
  | true =>
    have sign : (-l.magnitude).signText.toList = ['-'] := by
      change (if !l.magnitude.negative then "-" else "").toList = ['-']
      rw [unsigned]
      rfl
    exact (@toList_fixedText l places (-l.magnitude) finite pos few parts).trans
      (congrArg (· ++ _) sign)

end

end Literal

end Json

end DiveTable
