import DiveTable.Json.Skip
import DiveTable.Json.Typed

/-! Records with named fields. A record is written as an object, in which other members are
skipped and a field may not come twice, or as a list of its fields in their order, of which
those with a default may be left out at the end. -/
namespace DiveTable.Json

open Ascii

structure Field (σ : Type) where
  name : String
  isSet : σ → Bool
  read : σ → List UInt8 → Read σ

/-- A record `τ` is completed from a draft; that fails with the first required field not set. -/
structure Record (σ τ : Type) where
  name : String
  fields : List (Field σ)
  empty : σ
  complete : σ → Except String τ

namespace Record

variable {σ τ : Type}

/-- Where reading stands after a member that may not be there: its object may close behind it. -/
def behindKey (s : List UInt8) : List UInt8 :=
  match skipSpace s with
  | [] => []
  | b :: rest => if b = closeBrace then rest else b :: rest

def readMember (record : Record σ τ) (fuel : Nat) (draft : σ) (key : String) (s : List UInt8) :
    Read σ :=
  match record.fields.find? fun field => field.name == key with
  | none =>
    match skipColon s with
    | .error stop => .error stop
    | .ok s => (skipValue fuel s).map fun s => (draft, s)
  | some field =>
    if field.isSet draft then
      .error (.before (.mismatch (.duplicateField field.name)) (behindKey s))
    else
      match skipColon s with
      | .error stop => .error stop
      | .ok s => field.read draft s

def readObject (record : Record σ τ) (fuel : Nat) (s : List UInt8) : Read τ :=
  match foldMembers (record.readMember fuel) fuel true record.empty s with
  | .error stop => .error stop
  | .ok (draft, rest) =>
    match record.complete draft with
    | .ok value => .ok (value, rest)
    | .error name => .error (.before (.mismatch (.missingField name)) rest)

def closeList (s : List UInt8) : Except Stop (List UInt8) :=
  match skipSpace s with
  | [] => .error (.on .endInList [])
  | b :: rest =>
    if b = closeBracket then .ok rest
    else if b = comma then
      match skipSpace rest with
      | [] => .error (.on .trailingCharacters [])
      | c :: rest =>
        .error (.on (if c = closeBracket then .trailingComma else .trailingCharacters) (c :: rest))
    else .error (.on .trailingCharacters (b :: rest))

def readFields (record : Record σ τ) : Nat → List (Field σ) → σ → List UInt8 → Read τ
  | index, [], draft, s =>
    match closeList s with
    | .error stop => .error stop
    | .ok rest => ended index draft rest
  | index, field :: fields, draft, s =>
    match nextItem (index == 0) s with
    | .error stop => .error stop
    | .ok (.closed rest) => ended index draft rest
    | .ok (.next s) =>
      match field.read draft s with
      | .error stop => .error stop
      | .ok (draft, s) => readFields record (index + 1) fields draft s
where
  /-- A list that has ended; in front of a required field it is too short. -/
  ended (index : Nat) (draft : σ) (rest : List UInt8) : Read τ :=
    match record.complete draft with
    | .ok value => .ok (value, rest)
    | .error _ =>
      let expected := record.name ++ " with " ++ record.fields.length.repr ++ " elements"
      .error (.before (.mismatch (.wrongLength index expected)) rest)

def read (record : Record σ τ) (fuel : Nat) (s : List UInt8) : Read τ :=
  match skipSpace s with
  | [] => .error (.on .endInValue [])
  | b :: rest =>
    if b = openBracket then record.readFields 0 record.fields record.empty rest
    else if b = openBrace then record.readObject fuel rest
    else .error (wrongType record.name (b :: rest))

end Record

end DiveTable.Json
