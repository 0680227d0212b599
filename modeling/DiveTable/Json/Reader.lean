import DiveTable.Json.Literal
import DiveTable.Json.Number

/-! Reading a JSON value. `budget` is how many more lists and objects may be opened inside one
another, and `fuel` bounds the entries of each; the length of the text is always enough. -/
namespace DiveTable.Json

open Ascii

def foldItems {σ : Type} (item : σ → List UInt8 → Read σ) :
    Nat → Bool → σ → List UInt8 → Except Stop (σ × List UInt8)
  | 0, _, _, s => .error (.on .endInList s)
  | fuel + 1, first, state, s => do
    match ← nextItem first s with
    | .closed rest => .ok (state, rest)
    | .next s =>
      let (state, s) ← item state s
      foldItems item fuel false state s

def foldMembers {σ : Type} (member : σ → String → List UInt8 → Read σ) :
    Nat → Bool → σ → List UInt8 → Except Stop (σ × List UInt8)
  | 0, _, _, s => .error (.on .endInObject s)
  | fuel + 1, first, state, s => do
    match ← nextMember first s with
    | .closed rest => .ok (state, rest)
    | .next s =>
      let (key, s) ← readString s
      let (state, s) ← member state key s
      foldMembers member fuel false state s

def readKeyword (letters : List UInt8) (value : Value) (s : List UInt8) : Read Value :=
  (keyword letters s).map fun rest => (value, rest)

def readValue (fuel : Nat) : Nat → List UInt8 → Except Stop (Value × List UInt8)
  | budget, s =>
    match skipSpace s with
    | [] => .error (.on .endInValue [])
    | b :: rest =>
      if b = lowerN then readKeyword nullLetters .null rest
      else if b = lowerT then readKeyword trueLetters (.boolean true) rest
      else if b = lowerF then readKeyword falseLetters (.boolean false) rest
      else if b = quote then (readString rest).map fun (text, rest) => (.string text, rest)
      else if startsNumber b then
        (readNumber (b :: rest)).map fun (n, rest) => (.number n, rest)
      else if b = openBracket then
        match budget with
        | 0 => .error (.on .tooDeep (b :: rest))
        | budget + 1 => do
          let item (items : List Value) (s : List UInt8) :
              Except Stop (List Value × List UInt8) := do
            let (v, s) ← readValue fuel budget s
            .ok (v :: items, s)
          let (items, rest) ← foldItems item fuel true [] rest
          .ok (.array items.reverse, rest)
      else if b = openBrace then
        match budget with
        | 0 => .error (.on .tooDeep (b :: rest))
        | budget + 1 => do
          let member (members : Members) (key : String) (s : List UInt8) :
              Except Stop (Members × List UInt8) := do
            let s ← skipColon s
            let (v, s) ← readValue fuel budget s
            .ok (members.insert key v, s)
          let (members, rest) ← foldMembers member fuel true [] rest
          .ok (.object members, rest)
      else .error (.on .expectedValue (b :: rest))

/-- The lists and objects that may be open at the same time. -/
def nestingLimit : Nat := 127

def endOfText (s : List UInt8) : Except Stop Unit :=
  match skipSpace s with
  | [] => .ok ()
  | b :: rest => .error (.on .trailingCharacters (b :: rest))

def parse (input : List UInt8) : Except Fault Value :=
  let read : Except Stop Value := do
    let (value, rest) ← readValue input.length nestingLimit input
    endOfText rest
    .ok value
  read.mapError (·.locate input)

end DiveTable.Json
