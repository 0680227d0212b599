import DiveTable.Json.Scan

/-! Numbers in a JSON text. The digits go into a significand of 64 bits; whole digits that no
longer fit count as a power of ten, and decimal places that no longer fit are dropped. The
significand is then scaled by powers of ten up to `10 ^ 308`, each step rounded. -/
namespace DiveTable.Json

open Ascii

def fits (significand digit : Nat) : Bool := significand * 10 + digit < UInt64.size

/-- Divides by `10 ^ 308` again and again; zero stays what it is. -/
def scaleDown (f : Binary64) : Nat → Binary64
  | 0 => f
  | steps + 1 => if f.isZero then f else scaleDown (f / Binary64.tenPow 308) steps

def scaled (significand : Nat) (exponent : Int) : Option Binary64 :=
  let f := Binary64.ofNat significand
  if exponent < 0 then
    let steps := (exponent.natAbs - 1) / 308
    some (scaleDown f steps / Binary64.tenPow (exponent.natAbs - 308 * steps))
  else if exponent ≤ 308 then
    let product := f * Binary64.tenPow exponent.toNat
    if product.isFinite then some product else none
  else if f.isZero then some f
  else none

def finish (negative : Bool) (significand : Nat) (exponent : Int) (s : List UInt8) :
    Read Number :=
  match scaled significand exponent with
  | some x => .ok (.binary (if negative then -x else x), s)
  | none => .error (.before .numberOutOfRange s)

def skipDigits (s : List UInt8) : List UInt8 := s.dropWhile fun b => (digit? b).isSome

def shift (down : Bool) (value : Nat) : Int := if down then -(value : Int) else value

def exponentLimit : Nat := 0x80000000

/-- The digits of an exponent behind the first. One that is too large makes a number zero or out
of range, whatever the significand is. -/
def exponentDigits (negative : Bool) (significand : Nat) (exponent : Int) (down : Bool)
    (value : Nat) : List UInt8 → Read Number
  | [] => finish negative significand (exponent + shift down value) []
  | b :: rest =>
    match digit? b with
    | none => finish negative significand (exponent + shift down value) (b :: rest)
    | some d =>
      if value * 10 + d < exponentLimit then
        exponentDigits negative significand exponent down (value * 10 + d) rest
      else if significand ≠ 0 ∧ !down then .error (.before .numberOutOfRange rest)
      else .ok (.binary ⟨negative, 0⟩, skipDigits rest)

def exponentPart (negative : Bool) (significand : Nat) (exponent : Int) (s : List UInt8) :
    Read Number :=
  let (down, s) := match s with
    | [] => (false, [])
    | b :: rest => if b = plus then (false, rest) else if b = minus then (true, rest)
      else (false, b :: rest)
  match s with
  | [] => .error (.before .endInValue [])
  | b :: rest =>
    match digit? b with
    | some d => exponentDigits negative significand exponent down d rest
    | none => .error (.before .badNumber rest)

def isExponentLetter (b : UInt8) : Bool := b == lowerE || b == upperE

def afterFraction (negative : Bool) (significand : Nat) (exponent : Int) (s : List UInt8) :
    Read Number :=
  match s with
  | [] => finish negative significand exponent []
  | b :: rest =>
    if isExponentLetter b then exponentPart negative significand exponent rest
    else finish negative significand exponent (b :: rest)

/-- Decimal places, each lowering the exponent while it fits; `started` once one has been read. -/
def fractionDigits (negative : Bool) (significand : Nat) (exponent : Int) (started : Bool) :
    List UInt8 → Read Number
  | [] =>
    if started then finish negative significand exponent [] else .error (.on .endInValue [])
  | b :: rest =>
    match digit? b with
    | some d =>
      if fits significand d then
        fractionDigits negative (significand * 10 + d) (exponent - 1) true rest
      else afterFraction negative significand exponent (skipDigits (b :: rest))
    | none =>
      if started then afterFraction negative significand exponent (b :: rest)
      else .error (.on .badNumber (b :: rest))

def excessDigits (negative : Bool) (significand : Nat) (exponent : Int) :
    List UInt8 → Read Number
  | [] => finish negative significand exponent []
  | b :: rest =>
    match digit? b with
    | some _ => excessDigits negative significand (exponent + 1) rest
    | none =>
      if b = point then fractionDigits negative significand exponent false rest
      else afterFraction negative significand exponent (b :: rest)

/-- A number without fraction and exponent; minus zero and what is below the least integer of
64 bits are binary64. -/
def wholeNumber (negative : Bool) (significand : Nat) : Number :=
  if !negative then .natural (UInt64.ofNat significand)
  else if significand = 0 ∨ UInt64.size < 2 * significand then .binary (-Binary64.ofNat significand)
  else .negative (UInt64.ofNat significand)

def afterWhole (negative : Bool) (significand : Nat) (s : List UInt8) : Read Number :=
  match s with
  | [] => .ok (wholeNumber negative significand, [])
  | b :: rest =>
    if b = point then fractionDigits negative significand 0 false rest
    else if isExponentLetter b then exponentPart negative significand 0 rest
    else .ok (wholeNumber negative significand, b :: rest)

def wholeDigits (negative : Bool) (significand : Nat) : List UInt8 → Read Number
  | [] => afterWhole negative significand []
  | b :: rest =>
    match digit? b with
    | some d =>
      if fits significand d then wholeDigits negative (significand * 10 + d) rest
      else excessDigits negative significand 1 rest
    | none => afterWhole negative significand (b :: rest)

def unsignedNumber (negative : Bool) (s : List UInt8) : Read Number :=
  match s with
  | [] => .error (.before .endInValue [])
  | b :: rest =>
    match digit? b with
    | none => .error (.before .badNumber rest)
    | some 0 =>
      match rest with
      | [] => afterWhole negative 0 []
      | c :: rest =>
        if (digit? c).isSome then .error (.on .badNumber (c :: rest))
        else afterWhole negative 0 (c :: rest)
    | some d => wholeDigits negative d rest

def startsNumber (b : UInt8) : Bool := b == minus || (digit? b).isSome

def readNumber (s : List UInt8) : Read Number :=
  match s with
  | [] => unsignedNumber false []
  | b :: rest => if b = minus then unsignedNumber true rest else unsignedNumber false (b :: rest)

end DiveTable.Json
