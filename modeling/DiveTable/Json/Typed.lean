import DiveTable.Json.Reader

/-! Reading a value of which the type is known beforehand. A value of another type is reported
behind it if it is a scalar, and in front of its bracket if it is a container. -/
namespace DiveTable.Json

open Ascii

def wrongType (expected : String) (s : List UInt8) : Stop :=
  let found (shape : Shape) (rest : List UInt8) : Stop :=
    .before (.mismatch (.wrongType shape expected)) rest
  let behind (shape : Shape) : Except Stop (List UInt8) → Stop
    | .ok rest => found shape rest
    | .error stop => stop
  match skipSpace s with
  | [] => .on .endInValue []
  | b :: rest =>
    if b = lowerN then behind .null (keyword nullLetters rest)
    else if b = lowerT then behind (.boolean true) (keyword trueLetters rest)
    else if b = lowerF then behind (.boolean false) (keyword falseLetters rest)
    else if startsNumber b then
      match readNumber (b :: rest) with
      | .ok (n, rest) => found (.number n) rest
      | .error stop => stop
    else if b = quote then
      match readString rest with
      | .ok (text, rest) => found (.string text) rest
      | .error stop => stop
    else if b = openBracket then found .sequence (b :: rest)
    else if b = openBrace then found .map (b :: rest)
    else .on .expectedValue (b :: rest)

def readNumeric {α : Type} (expected : String) (accept : Number → Except Mismatch α)
    (s : List UInt8) : Read α :=
  match skipSpace s with
  | [] => .error (.on .endInValue [])
  | b :: rest =>
    if startsNumber b then
      match readNumber (b :: rest) with
      | .error stop => .error stop
      | .ok (n, rest) =>
        match accept n with
        | .ok value => .ok (value, rest)
        | .error m => .error (.before (.mismatch m) rest)
    else .error (wrongType expected (b :: rest))

def readNatural (expected : String) (limit : Nat) (s : List UInt8) : Read Nat :=
  let accept : Number → Except Mismatch Nat
    | .natural n =>
      if n.toNat < limit then .ok n.toNat else .error (.wrongValue (.number (.natural n)) expected)
    | .negative n => .error (.wrongValue (.number (.negative n)) expected)
    | .binary x => .error (.wrongType (.number (.binary x)) expected)
  readNumeric expected accept s

def readUInt8 (s : List UInt8) : Read UInt8 :=
  (readNatural "u8" UInt8.size s).map fun (n, rest) => (n.toUInt8, rest)

def readUInt16 (s : List UInt8) : Read UInt16 :=
  (readNatural "u16" UInt16.size s).map fun (n, rest) => (n.toUInt16, rest)

def readUInt32 (s : List UInt8) : Read UInt32 :=
  (readNatural "u32" UInt32.size s).map fun (n, rest) => (n.toUInt32, rest)

def readBinary64 (s : List UInt8) : Read Binary64 :=
  readNumeric "f64" (fun n => .ok n.toBinary64) s

def readText (s : List UInt8) : Read String :=
  match skipSpace s with
  | [] => .error (.on .endInValue [])
  | b :: rest =>
    if b = quote then readString rest else .error (wrongType "a string" (b :: rest))

def readOptional {α : Type} (read : List UInt8 → Read α) (s : List UInt8) : Read (Option α) :=
  let value (s : List UInt8) : Read (Option α) := (read s).map fun (a, rest) => (some a, rest)
  match skipSpace s with
  | [] => value []
  | b :: rest =>
    if b = lowerN then (keyword nullLetters rest).map fun rest => (none, rest)
    else value (b :: rest)

def readValues (fuel budget : Nat) (s : List UInt8) : Read (List Value) :=
  match skipSpace s with
  | [] => .error (.on .endInValue [])
  | b :: rest =>
    if b = openBracket then
      let item (items : List Value) (s : List UInt8) : Read (List Value) :=
        (readValue fuel budget s).map fun (v, s) => (v :: items, s)
      (foldItems item fuel true [] rest).map fun (items, rest) => (items.reverse, rest)
    else .error (wrongType "a sequence" (b :: rest))

end DiveTable.Json
