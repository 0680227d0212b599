import DiveTable.Proofs.DecimalCells
import DiveTable.Proofs.VersionGrammar

/-! # Decimals as they are written

A sign or none, whole digits without a zero in front, and a point with the digits behind it where
there are any. A decimal is read back from its text, and a finite number is shown as the text of
one: the digits of its parts, as many behind the point as it has places. -/
namespace DiveTable

open Version (IsNumeral isNumeral_iff)

structure PlainDecimal where
  negative : Bool
  whole : List Char
  fraction : List Char
  numeral : IsNumeral whole
  digits : ∀ c ∈ fraction, c.isDigit = true

instance (part : List Char) : Decidable (IsNumeral part) := decidable_of_iff _ isNumeral_iff.symm

namespace PlainDecimal

/-- The text without the sign. No point is written where no digits are behind it. -/
def magnitudeText (d : PlainDecimal) : List Char :=
  d.whole ++ if d.fraction = [] then [] else '.' :: d.fraction

def text (d : PlainDecimal) : List Char :=
  if d.negative then '-' :: d.magnitudeText else d.magnitudeText

def parts (d : PlainDecimal) : Nat := Nat.ofDigitChars 10 (d.whole ++ d.fraction) 0

def ofPieces? (negative : Bool) (whole fraction : List Char) : Option PlainDecimal :=
  if h : IsNumeral whole ∧ fraction.all Char.isDigit = true then
    some ⟨negative, whole, fraction, h.1, List.all_eq_true.1 h.2⟩
  else none

def ofMagnitude? (negative : Bool) (text : List Char) : Option PlainDecimal :=
  ofPieces? negative (cutAt '.' text).1 ((cutAt '.' text).2.getD [])

def ofText? (text : List Char) : Option PlainDecimal :=
  if text.head? = some '-' then ofMagnitude? true text.tail else ofMagnitude? false text

/-! ## A decimal is read back -/

theorem ofPieces_self (d : PlainDecimal) : ofPieces? d.negative d.whole d.fraction = some d :=
  dif_pos ⟨d.numeral, List.all_eq_true.2 d.digits⟩

theorem cutAt_magnitudeText (d : PlainDecimal) :
    cutAt '.' d.magnitudeText = (d.whole, if d.fraction = [] then none else some d.fraction) := by
  have unpointed : '.' ∉ d.whole := fun mem => absurd (d.numeral.isDigit _ mem) (by decide)
  unfold magnitudeText
  by_cases bare : d.fraction = []
  · rw [if_pos bare, if_pos bare, List.append_nil, cutAt_of_not_mem unpointed]
  · rw [if_neg bare, if_neg bare, cutAt_append unpointed]

theorem ofMagnitude_magnitudeText (d : PlainDecimal) :
    ofMagnitude? d.negative d.magnitudeText = some d := by
  have fraction : (if d.fraction = [] then none else some d.fraction).getD [] = d.fraction := by
    split
    · exact (by assumption : d.fraction = []).symm
    · rfl
  rw [ofMagnitude?, cutAt_magnitudeText, fraction, ofPieces_self]

theorem head_magnitudeText (d : PlainDecimal) :
    ∃ first, d.magnitudeText.head? = some first ∧ first.isDigit = true := by
  unfold magnitudeText
  cases h : d.whole with
  | nil => exact absurd h (isNumeral_iff.1 d.numeral).1
  | cons first more => exact ⟨first, rfl, d.numeral.isDigit first (h ▸ List.mem_cons_self)⟩

theorem ofText_text (d : PlainDecimal) : ofText? d.text = some d := by
  have magnitude := ofMagnitude_magnitudeText d
  unfold ofText? text
  cases sign : d.negative with
  | true =>
    rw [sign] at magnitude
    rw [if_pos rfl, if_pos List.head?_cons, List.tail_cons, magnitude]
  | false =>
    rw [sign] at magnitude
    obtain ⟨first, head, digit⟩ := head_magnitudeText d
    have other : d.magnitudeText.head? ≠ some '-' := by
      rw [head]
      rintro ⟨⟩
      cases digit
    rw [if_neg Bool.false_ne_true, if_neg other, magnitude]

/-! ## The decimal of a number of parts -/

theorem head_toDigits {n : Nat} (pos : 0 < n) : (Nat.toDigits 10 n).head? ≠ some '0' := by
  induction n using Nat.strongRecOn with
  | ind n ih =>
    rw [Nat.toDigits_eq_if (by decide)]
    by_cases small : n < 10
    · have digit : ∀ d : Fin 10, d ≠ 0 → Nat.digitChar d.val ≠ '0' := by decide
      rw [if_pos small, List.head?_cons]
      intro zero
      refine digit ⟨n, small⟩ ?_ (Option.some.inj zero)
      exact Fin.ne_of_val_ne (Nat.ne_of_gt pos)
    · rw [if_neg small, List.head?_append, Option.or_of_isSome]
      · exact ih (n / 10) (Nat.div_lt_self pos (by decide)) (by omega)
      · exact List.isSome_head?.2 Nat.toDigits_ne_nil

theorem isNumeral_toDigits (n : Nat) : IsNumeral (Nat.toDigits 10 n) := by
  refine isNumeral_iff.2 ⟨Nat.toDigits_ne_nil, ?_, ?_⟩
  · exact List.all_eq_true.2 fun _ mem => Csv.isDigit_of_mem_toDigits mem
  · rcases Nat.eq_zero_or_pos n with rfl | pos
    · rfl
    · simp [Version.hasLeadingZero, head_toDigits pos]

def ofParts (negative : Bool) (places n : Nat) : PlainDecimal where
  negative := negative
  whole := Nat.toDigits 10 (n / tenTo places)
  fraction := if places = 0 then [] else (zeroPadded places (n % tenTo places)).toList
  numeral := isNumeral_toDigits _
  digits := by
    intro c mem
    split at mem
    · cases mem
    · exact isDigit_of_mem_zeroPadded mem

theorem length_fraction_ofParts (negative : Bool) (places n : Nat) :
    (ofParts negative places n).fraction.length = places := by
  unfold ofParts
  dsimp only
  by_cases none : places = 0
  · rw [if_pos none, none]
    rfl
  · rw [if_neg none]
    exact length_zeroPadded (Nat.pos_of_ne_zero none) (Nat.mod_lt n (tenTo_pos places))

theorem ofDigitChars_zeroPadded (width n : Nat) :
    Nat.ofDigitChars 10 (zeroPadded width n).toList 0 = n := by
  rw [zeroPadded, String.toList_ofList, Nat.ofDigitChars_append, Nat.ofDigitChars_replicate_zero,
    Nat.mul_zero, Nat.ofDigitChars_ten_toDigits]

theorem parts_ofParts (negative : Bool) (places n : Nat) :
    (ofParts negative places n).parts = n := by
  unfold parts ofParts
  dsimp only
  rw [Nat.ofDigitChars_append, Nat.ofDigitChars_ten_toDigits]
  by_cases none : places = 0
  · rw [if_pos none, none, tenTo_zero, Nat.div_one, Nat.ofDigitChars_nil]
  · have length := length_zeroPadded (Nat.pos_of_ne_zero none) (Nat.mod_lt n (tenTo_pos places))
    rw [if_neg none, Nat.ofDigitChars_eq_ofDigitChars_zero, length, ofDigitChars_zeroPadded]
    exact Nat.div_add_mod n (tenTo places)

theorem magnitudeText_ofParts (negative : Bool) (places n : Nat) :
    (ofParts negative places n).magnitudeText = (pointed places n).toList := by
  have length := length_fraction_ofParts negative places n
  unfold magnitudeText
  by_cases none : places = 0
  · have empty : (ofParts negative places n).fraction = [] := if_pos none
    rw [if_pos empty, List.append_nil, pointed, if_pos none, Nat.toList_repr]
    change Nat.toDigits 10 (n / tenTo places) = _
    rw [none, tenTo_zero, Nat.div_one]
  · have some' : (ofParts negative places n).fraction ≠ [] := by
      rw [ne_eq, ← List.length_eq_zero_iff, length]
      exact none
    rw [if_neg some', toList_pointed (Nat.pos_of_ne_zero none)]
    exact congrArg (_ ++ '.' :: ·) (if_neg none)

end PlainDecimal

/-- A finite number is shown as the decimal of its parts. -/
theorem Binary64.fixedText_eq_text {x : Binary64} (finite : x.isFinite = true) (places : Nat) :
    (x.fixedText places).toList =
      (PlainDecimal.ofParts x.negative places (x.parts places)).text := by
  rw [fixedText_of_finite finite, String.toList_append,
    ← PlainDecimal.magnitudeText_ofParts x.negative]
  unfold PlainDecimal.text signText
  change _ = if x.negative then _ else _
  cases x.negative <;> rfl

end DiveTable
