import DiveTable.Json.Scan
import DiveTable.Text.Utf8

/-! Strings in a JSON text, read byte by byte with a mode that tells how far an escape has got.
The escapes are resolved to bytes, and the bytes must then be well-formed UTF-8. -/
namespace DiveTable.Json

open Ascii

def shortEscape? (b : UInt8) : Option UInt8 :=
  if b = quote then some quote
  else if b = backslash then some backslash
  else if b = slash then some slash
  else if b = lowerB then some 0x08
  else if b = lowerF then some formFeed
  else if b = lowerN then some lineFeed
  else if b = lowerR then some carriageReturn
  else if b = lowerT then some tab
  else none

/-- How far an escape has got. `hex high read value` has read some of four digits, `value` being
nothing once one of them was none; `high` is the first half of a surrogate pair. -/
inductive Mode where
  | plain
  | escape
  | hex (high : Option Nat) (read : Nat) (value : Option Nat)
  | pairBackslash (high : Nat)
  | pairLetter (high : Nat)
  deriving DecidableEq, Repr

def hexStep (value : Option Nat) (b : UInt8) : Option Nat :=
  match value, hexDigit? b with
  | some v, some d => some (v * 16 + d)
  | _, _ => none

def codeUnit (high : Option Nat) (unit : Nat) : Except Cause (Char ⊕ Nat) :=
  match high with
  | some h =>
    if 0xDC00 ≤ unit ∧ unit ≤ 0xDFFF then
      .ok (.inl (Char.ofNat (0x10000 + (h - 0xD800) * 0x400 + (unit - 0xDC00))))
    else .error .loneSurrogate
  | none =>
    if 0xDC00 ≤ unit ∧ unit ≤ 0xDFFF then .error .loneSurrogate
    else if 0xD800 ≤ unit ∧ unit ≤ 0xDBFF then .ok (.inr unit)
    else .ok (.inl (Char.ofNat unit))

def pushBytes (bytes : List UInt8) : Read (List UInt8) → Read (List UInt8)
  | .ok (content, rest) => .ok (bytes ++ content, rest)
  | .error stop => .error stop

def content : Mode → List UInt8 → Read (List UInt8)
  | _, [] => .error (.before .endInString [])
  | .plain, b :: rest =>
    if b = quote then .ok ([], rest)
    else if b = backslash then content .escape rest
    else if b < space then .error (.before .controlCharacter rest)
    else pushBytes [b] (content .plain rest)
  | .escape, b :: rest =>
    if b = lowerU then content (.hex none 0 (some 0)) rest
    else match shortEscape? b with
      | some e => pushBytes [e] (content .plain rest)
      | none => .error (.before .badEscape rest)
  | .hex high read value, b :: rest =>
    let value := hexStep value b
    if read < 3 then content (.hex high (read + 1) value) rest
    else match value with
      | none => .error (.before .badEscape rest)
      | some unit =>
        match codeUnit high unit with
        | .error cause => .error (.before cause rest)
        | .ok (.inl c) => pushBytes (String.utf8EncodeChar c) (content .plain rest)
        | .ok (.inr h) => content (.pairBackslash h) rest
  | .pairBackslash high, b :: rest =>
    if b = backslash then content (.pairLetter high) rest
    else .error (.before .shortSurrogatePair rest)
  | .pairLetter high, b :: rest =>
    if b = lowerU then content (.hex (some high) 0 (some 0)) rest
    else .error (.before .shortSurrogatePair rest)

/-- A string from behind its opening quote. Bad UTF-8 is noticed once the string has ended. Its
place is counted back from the closing quote, by the resolved bytes from the first one that is no
part of a character; where no escape follows, that byte itself is the place. -/
def readString (s : List UInt8) : Read String :=
  match content .plain s with
  | .error stop => .error stop
  | .ok (bytes, rest) =>
    match Utf8.decode bytes with
    | (text, []) => .ok (String.ofList text, rest)
    | (_, b :: bad) => .error ⟨.badUnicode, rest.length + (b :: bad).length⟩

end DiveTable.Json
