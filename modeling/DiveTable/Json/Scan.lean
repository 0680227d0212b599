import DiveTable.Json.Fault

/-! The smallest steps of a JSON reader: white space, keywords, and what stands between the
items of a list and the members of an object. -/
namespace DiveTable.Json

open Ascii

def isSpace (b : UInt8) : Bool := b == space || b == tab || b == lineFeed || b == carriageReturn

def skipSpace (s : List UInt8) : List UInt8 := s.dropWhile isSpace

def keyword : List UInt8 → List UInt8 → Except Stop (List UInt8)
  | [], s => .ok s
  | _ :: _, [] => .error (.before .endInValue [])
  | letter :: letters, b :: s =>
    if b = letter then keyword letters s else .error (.before .expectedKeyword s)

def nullLetters : List UInt8 := [lowerU, 0x6C, 0x6C]
def trueLetters : List UInt8 := [lowerR, lowerU, lowerE]
def falseLetters : List UInt8 := [0x61, 0x6C, 0x73, lowerE]

/-- Where a container goes on: behind its closing bracket, or at its next entry. -/
inductive Entry where
  | closed (rest : List UInt8)
  | next (rest : List UInt8)
  deriving DecidableEq, Repr

def nextItem (first : Bool) (s : List UInt8) : Except Stop Entry :=
  match skipSpace s with
  | [] => .error (.on .endInList [])
  | b :: rest =>
    if b = closeBracket then .ok (.closed rest)
    else if first then .ok (.next (b :: rest))
    else if b = comma then
      match skipSpace rest with
      | [] => .error (.on .endInValue [])
      | c :: rest =>
        if c = closeBracket then .error (.on .trailingComma (c :: rest))
        else .ok (.next (c :: rest))
    else .error (.on .expectedListEnd (b :: rest))

def nextMember (first : Bool) (s : List UInt8) : Except Stop Entry :=
  match skipSpace s with
  | [] => .error (.on .endInObject [])
  | b :: rest =>
    if b = closeBrace then .ok (.closed rest)
    else if first then
      if b = quote then .ok (.next rest) else .error (.on .keyNotString (b :: rest))
    else if b = comma then
      match skipSpace rest with
      | [] => .error (.on .endInValue [])
      | c :: rest =>
        if c = quote then .ok (.next rest)
        else if c = closeBrace then .error (.on .trailingComma (c :: rest))
        else .error (.on .keyNotString (c :: rest))
    else .error (.on .expectedObjectEnd (b :: rest))

def skipColon (s : List UInt8) : Except Stop (List UInt8) :=
  match skipSpace s with
  | [] => .error (.on .endInObject [])
  | b :: rest => if b = colon then .ok rest else .error (.on .expectedColon (b :: rest))

end DiveTable.Json
