import DiveTable.Json.Reader

/-! Skipping a value without keeping it. Only its spelling is checked: numbers of any size,
strings of any bytes and nesting of any depth pass. The containers that are open are kept in a
list, the innermost first. -/
namespace DiveTable.Json

open Ascii

/-- The text behind a string whose opening quote has been read; `hexLeft` digits of an escape
are still to come, `good` while all of them were digits. -/
inductive SkipMode where
  | plain
  | escape
  | hex (read : Nat) (good : Bool)
  deriving DecidableEq, Repr

def skipString : SkipMode → List UInt8 → Except Stop (List UInt8)
  | _, [] => .error (.before .endInString [])
  | .plain, b :: rest =>
    if b = quote then .ok rest
    else if b = backslash then skipString .escape rest
    else if b < space then .error (.before .controlCharacter (b :: rest))
    else skipString .plain rest
  | .escape, b :: rest =>
    if b = lowerU then skipString (.hex 0 true) rest
    else if (shortEscape? b).isSome then skipString .plain rest
    else .error (.before .badEscape rest)
  | .hex read good, b :: rest =>
    let good := good && (hexDigit? b).isSome
    if read < 3 then skipString (.hex (read + 1) good) rest
    else if good then skipString .plain rest
    else .error (.before .badEscape rest)

def skipExponent (s : List UInt8) : Except Stop (List UInt8) :=
  let s := match s with
    | [] => []
    | b :: rest => if b = plus ∨ b = minus then rest else b :: rest
  match s with
  | [] => .error (.before .badNumber [])
  | b :: rest =>
    if (digit? b).isSome then .ok (skipDigits rest) else .error (.before .badNumber rest)

def skipFraction (s : List UInt8) : Except Stop (List UInt8) :=
  match s with
  | [] => .ok []
  | b :: rest =>
    if b = point then
      match rest with
      | [] => .error (.on .badNumber [])
      | c :: rest =>
        if (digit? c).isSome then
          match skipDigits rest with
          | [] => .ok []
          | e :: rest => if isExponentLetter e then skipExponent rest else .ok (e :: rest)
        else .error (.on .badNumber (c :: rest))
    else if isExponentLetter b then skipExponent rest
    else .ok (b :: rest)

def skipUnsigned (s : List UInt8) : Except Stop (List UInt8) :=
  match s with
  | [] => .error (.before .badNumber [])
  | b :: rest =>
    match digit? b with
    | none => .error (.before .badNumber rest)
    | some 0 =>
      match rest with
      | [] => .ok []
      | c :: rest =>
        if (digit? c).isSome then .error (.on .badNumber (c :: rest))
        else skipFraction (c :: rest)
    | some _ => skipFraction (skipDigits rest)

inductive Container where
  | list
  | object
  deriving DecidableEq, Repr

def Container.closing : Container → UInt8
  | .list => closeBracket
  | .object => closeBrace

def Container.atEnd : Container → Cause
  | .list => .endInList
  | .object => .endInObject

def Container.expectedEnd : Container → Cause
  | .list => .expectedListEnd
  | .object => .expectedObjectEnd

def skipStart (s : List UInt8) : Except Stop (Option Container × List UInt8) :=
  match skipSpace s with
  | [] => .error (.on .endInValue [])
  | b :: rest =>
    let scalar (skipped : Except Stop (List UInt8)) := skipped.map fun rest => (none, rest)
    if b = lowerN then scalar (keyword nullLetters rest)
    else if b = lowerT then scalar (keyword trueLetters rest)
    else if b = lowerF then scalar (keyword falseLetters rest)
    else if b = minus then scalar (skipUnsigned rest)
    else if (digit? b).isSome then scalar (skipUnsigned (b :: rest))
    else if b = quote then scalar (skipString .plain rest)
    else if b = openBracket then .ok (some .list, rest)
    else if b = openBrace then .ok (some .object, rest)
    else .error (.on .expectedValue (b :: rest))

def skipKey (container : Container) (s : List UInt8) : Except Stop (List UInt8) :=
  match container with
  | .list => .ok s
  | .object =>
    match skipSpace s with
    | [] => .error (.on .endInObject [])
    | b :: rest =>
      if b = quote then (skipString .plain rest).bind skipColon
      else .error (.on .keyNotString (b :: rest))

inductive Place where
  | value
  | behindValue
  | opened
  deriving DecidableEq, Repr

/-- Goes on until every open container is closed. Each round but the one behind an opening
bracket reads a byte, so twice the length of the text is fuel enough. -/
def skipOpen : Nat → Place → List Container → List UInt8 → Except Stop (List UInt8)
  | 0, _, _, s => .error (.on .endInValue s)
  | fuel + 1, .value, enclosing, s => do
    match ← skipStart s with
    | (some container, s) => skipOpen fuel .opened (container :: enclosing) s
    | (none, s) => skipOpen fuel .behindValue enclosing s
  | _ + 1, _, [], s => .ok s
  | fuel + 1, place, container :: outer, s =>
    match skipSpace s with
    | [] => .error (.on container.atEnd [])
    | b :: rest =>
      if b = container.closing then skipOpen fuel .behindValue outer rest
      else if place = .opened then do
        let s ← skipKey container (b :: rest)
        skipOpen fuel .value (container :: outer) s
      else if b = comma then do
        let s ← skipKey container rest
        skipOpen fuel .value (container :: outer) s
      else .error (.on container.expectedEnd (b :: rest))

def skipValue (fuel : Nat) (s : List UInt8) : Except Stop (List UInt8) :=
  skipOpen (2 * fuel + 2) .value [] s

end DiveTable.Json
