import DiveTable.Json.Skip

/-! # Number literals

The grammar of a number as it stands in a text, and the number that a literal stands for: digits go
into a significand while they fit a word, and the places in front and behind count as powers of
ten. -/
namespace DiveTable.Json

open Ascii

abbrev Digits := List (Fin 10)

-- the numerals of digits are all read through this instance
instance neZero_ten : @NeZero Nat Zero.ofOfNat0 10 := ⟨Nat.succ_ne_zero 9⟩

def digitByte (d : Fin 10) : UInt8 := zero + UInt8.ofNat d.val

def digitBytes (digits : Digits) : List UInt8 := digits.map digitByte

/-- The number that digits stand for behind those of `start`. -/
def decimal (start : Nat) (digits : Digits) : Nat := digits.foldl (fun n d => n * 10 + d.val) start

structure Exponent where
  upper : Bool
  /-- A plus or a minus sign, if there is one. -/
  sign : Option Bool
  lead : Fin 10
  more : Digits
  deriving DecidableEq, Repr

namespace Exponent

def down (x : Exponent) : Bool := x.sign == some true

def value (x : Exponent) : Nat := decimal x.lead.val x.more

def signBytes (x : Exponent) : List UInt8 :=
  match x.sign with
  | none => []
  | some false => [plus]
  | some true => [minus]

def bytes (x : Exponent) : List UInt8 :=
  (if x.upper then upperE else lowerE) :: (x.signBytes ++ digitBytes (x.lead :: x.more))

end Exponent

/-- A number as it stands in a text: whole digits without a zero in front of others, decimal
places if there are any, and an exponent if there is one. -/
structure Literal where
  negative : Bool
  lead : Fin 10
  more : Digits
  fraction : Digits
  exponent : Option Exponent
  noZeroInFront : more = [] ∨ lead ≠ 0

def fractionBytes (fraction : Digits) : List UInt8 :=
  if fraction = [] then [] else point :: digitBytes fraction

def exponentBytes (exponent : Option Exponent) : List UInt8 :=
  match exponent with
  | none => []
  | some x => x.bytes

namespace Literal

def magnitudeBytes (l : Literal) : List UInt8 :=
  digitBytes (l.lead :: l.more) ++ (fractionBytes l.fraction ++ exponentBytes l.exponent)

def bytes (l : Literal) : List UInt8 :=
  if l.negative then minus :: l.magnitudeBytes else l.magnitudeBytes

end Literal

/-- Takes digits into a significand while they fit; the digits that are left do not count. -/
def fill (significand : Nat) : Digits → Nat × Digits
  | [] => (significand, [])
  | d :: digits =>
    if fits significand d.val then fill (significand * 10 + d.val) digits
    else (significand, d :: digits)

def scaledNumber (negative : Bool) (significand : Nat) (exponent : Int) : Option Number :=
  (scaled significand exponent).map fun x => .binary (if negative then -x else x)

def withExponent (negative : Bool) (significand : Nat) (exponent : Int) :
    Option Exponent → Option Number
  | none => scaledNumber negative significand exponent
  | some x =>
    if x.value < exponentLimit then
      scaledNumber negative significand (exponent + shift x.down x.value)
    else if significand ≠ 0 ∧ !x.down then none
    else some (.binary ⟨negative, 0⟩)

/-- The number that a literal is read as, or nothing if it is out of range. -/
def Literal.number? (l : Literal) : Option Number :=
  let whole := fill 0 (l.lead :: l.more)
  let all := fill whole.1 l.fraction
  if l.fraction = [] ∧ l.exponent = none ∧ whole.2 = [] then
    some (wholeNumber l.negative whole.1)
  else
    withExponent l.negative all.1 (whole.2.length - (l.fraction.length - all.2.length)) l.exponent

theorem digit_digitByte (d : Fin 10) : digit? (digitByte d) = some d.val := by
  revert d
  decide

theorem exists_digitByte {b : UInt8} {n : Nat} (h : digit? b = some n) :
    ∃ d : Fin 10, digitByte d = b ∧ d.val = n := by
  refine ⟨⟨n, digit_lt h⟩, ?_, rfl⟩
  simp only [digit?, Option.ite_none_right_eq_some, Bool.and_eq_true, decide_eq_true_eq,
    UInt8.le_iff_toNat_le, Option.some.injEq] at h
  obtain ⟨⟨low, high⟩, rfl⟩ := h
  have bounds : zero.toNat = 48 ∧ (0x30 : UInt8).toNat = 48 ∧ (0x39 : UInt8).toNat = 57 :=
    ⟨rfl, rfl, rfl⟩
  apply UInt8.toNat_inj.1
  simp only [digitByte, UInt8.toNat_add, UInt8.toNat_ofNat']
  omega

def Stops (s : List UInt8) : Prop := ∀ b rest, s = b :: rest → digit? b = none

/-- What may stand behind a value: nothing, white space, a comma or a closing bracket. -/
def Ends (s : List UInt8) : Prop :=
  ∀ b rest, s = b :: rest → isSpace b = true ∨ b = comma ∨ b = closeBracket ∨ b = closeBrace

theorem ends_nil : Ends [] := by
  intro b rest h
  cases h

theorem not_number_of_ends {b : UInt8}
    (h : isSpace b = true ∨ b = comma ∨ b = closeBracket ∨ b = closeBrace) :
    digit? b = none ∧ b ≠ point ∧ isExponentLetter b = false := by
  rcases h with h | rfl | rfl | rfl
  · simp only [isSpace, Bool.or_eq_true, beq_iff_eq] at h
    rcases h with ((rfl | rfl) | rfl) | rfl <;> decide
  · decide
  · decide
  · decide

theorem Ends.stops {s : List UInt8} (h : Ends s) : Stops s :=
  fun b rest hs => (not_number_of_ends (h b rest hs)).1

theorem stops_cons {b : UInt8} (h : digit? b = none) (s : List UInt8) : Stops (b :: s) := by
  intro c rest hc
  cases hc
  exact h

theorem exists_digits (s : List UInt8) : ∃ digits t, s = digitBytes digits ++ t ∧ Stops t := by
  induction s with
  | nil => exact ⟨[], [], rfl, by intro b rest h; cases h⟩
  | cons b rest ih =>
    cases digit : digit? b with
    | none => exact ⟨[], b :: rest, rfl, stops_cons digit rest⟩
    | some n =>
      obtain ⟨d, rfl, -⟩ := exists_digitByte digit
      obtain ⟨digits, t, rfl, stops⟩ := ih
      exact ⟨d :: digits, t, rfl, stops⟩

theorem skipDigits_of_stops {s : List UInt8} (h : Stops s) : skipDigits s = s := by
  cases s with
  | nil => rfl
  | cons b rest =>
    unfold skipDigits
    rw [List.dropWhile_cons_of_neg]
    rw [h b rest rfl]
    decide

theorem skipDigits_bytes (digits : Digits) {t : List UInt8} (h : Stops t) :
    skipDigits (digitBytes digits ++ t) = t := by
  induction digits with
  | nil => exact skipDigits_of_stops h
  | cons d digits ih =>
    have digit : (digit? (digitByte d)).isSome = true := by rw [digit_digitByte]; rfl
    exact (List.dropWhile_cons_of_pos (p := fun b => (digit? b).isSome) digit).trans ih

theorem decimal_cons (start : Nat) (d : Fin 10) (digits : Digits) :
    decimal start (d :: digits) = decimal (start * 10 + d.val) digits := rfl

theorem le_decimal (start : Nat) (digits : Digits) : start ≤ decimal start digits := by
  induction digits generalizing start with
  | nil => exact Nat.le_refl start
  | cons d digits ih =>
    have step := ih (start * 10 + d.val)
    rw [decimal_cons]
    omega

end DiveTable.Json
