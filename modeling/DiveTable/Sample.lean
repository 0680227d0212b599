import DiveTable.Event
import DiveTable.Fault
import DiveTable.Json.Value

/-! From a sample of a dump to the event it stands for. A sample, and the value of a deco sample,
is an object with named fields or a list of them in their order. -/
namespace DiveTable

open Json

/-- The fields of a sample; a missing value is null. -/
structure Sample where
  kind : String
  value : Value

structure DecoSample where
  status : String
  seconds : UInt32
  depth : Binary64
  deriving DecidableEq, Repr

namespace Sample

inductive Reason where
  | sampleShape (m : Mismatch)
  | decoShape (m : Mismatch)
  | notNumber (quantity : Quantity) (value : Value)
  | notTime (value : Value)
  | unknownStatus (status : String)

def Reason.message : Reason → String
  | sampleShape m => m.message
  | decoShape m => "deco value: " ++ m.message
  | notNumber quantity value => quantity.name ++ " value is not a number: " ++ value.text
  | notTime value => "time value is not a millisecond offset: " ++ value.text
  | unknownStatus status => "unknown deco status: " ++ status

def text : Value → Except Mismatch String
  | .string s => .ok s
  | v => .error (.wrongType v.shape "a string")

def binary64 : Value → Except Mismatch Binary64
  | .number n => .ok n.toBinary64
  | v => .error (.wrongType v.shape "f64")

def word : Value → Except Mismatch UInt32
  | .number (.natural n) =>
    if n.toNat < UInt32.size then .ok n.toUInt32
    else .error (.wrongValue (.number (.natural n)) "u32")
  | .number (.negative n) => .error (.wrongValue (.number (.negative n)) "u32")
  | v => .error (.wrongType v.shape "u32")

def tooLong (length : Nat) : Mismatch := .wrongLength length "fewer elements in array"

def ofValue : Value → Except Mismatch Sample
  | .array [] => .error (.wrongLength 0 "struct RawSample with 2 elements")
  | .array (kind :: rest) => do
    let kind ← text kind
    match rest with
    | [] => .ok ⟨kind, .null⟩
    | [value] => .ok ⟨kind, value⟩
    | _ => .error (tooLong (rest.length + 1))
  | .object members =>
    match members.lookup "type" with
    | none => .error (.missingField "type")
    | some kind => do
      let kind ← text kind
      .ok ⟨kind, (members.lookup "value").getD .null⟩
  | v => .error (.wrongType v.shape "struct RawSample")

def orDefault {α : Type} (read : Value → Except Mismatch α) (default : α) :
    Option Value → Except Mismatch α
  | none => .ok default
  | some v => read v

/-- Members are looked at in the order of their keys, items in the order of the fields. -/
def decoOfValue : Value → Except Mismatch DecoSample
  | .array [] => .error (.wrongLength 0 "struct RawDeco with 3 elements")
  | .array (status :: rest) => do
    let status ← text status
    let seconds ← orDefault word 0 rest[0]?
    let depth ← orDefault binary64 .zero rest[1]?
    if rest.length ≤ 2 then .ok ⟨status, seconds, depth⟩
    else .error (tooLong (rest.length + 1))
  | .object members => do
    let depth ← orDefault binary64 .zero (members.lookup "depth")
    match members.lookup "status" with
    | none =>
      let _ ← orDefault word 0 (members.lookup "time")
      .error (.missingField "status")
    | some status =>
      let status ← text status
      let seconds ← orDefault word 0 (members.lookup "time")
      .ok ⟨status, seconds, depth⟩
  | v => .error (.wrongType v.shape "struct RawDeco")

/-- The letters of a status may be in either case; a deep stop has no token of its own. -/
def status? (name : String) : Option DecoStatus :=
  match name with
  | "ndl" => some .ndl
  | "decostop" => some .decoStop
  | "safetystop" => some .safetyStop
  | "deepstop" => some .ndl
  | _ => none

def timeEvent (value : Value) : Except Reason Event :=
  match value with
  | .number (.natural n) =>
    if n.toNat < UInt32.size then .ok (.time n.toUInt32) else .error (.notTime value)
  | _ => .error (.notTime value)

def readingEvent (quantity : Quantity) (value : Value) : Except Reason Event :=
  match value with
  | .number n => .ok (.reading quantity n.toBinary64)
  | _ => .error (.notNumber quantity value)

def decoEvent (value : Value) : Except Reason Event :=
  match decoOfValue value with
  | .error m => .error (.decoShape m)
  | .ok deco =>
    let status := String.ofList (deco.status.toList.map Char.toLower)
    match status? status with
    | none => .error (.unknownStatus status)
    | some s => .ok (.deco ⟨s, deco.seconds, deco.depth⟩)

/-- The event of a sample, by its kind; of an unknown kind, whatever the value is. -/
def event (sample : Sample) : Except Reason Event :=
  if sample.kind = "time" then timeEvent sample.value
  else if sample.kind = "deco" then decoEvent sample.value
  else match Quantity.ofName? sample.kind with
    | some quantity => readingEvent quantity sample.value
    | none => .ok (.other sample.kind)

def eventOfValue (raw : Value) : Except Reason Event :=
  match ofValue raw with
  | .error m => .error (.sampleShape m)
  | .ok sample => sample.event

def decode (index : Nat) (raw : Value) : Except Fault Event :=
  (eventOfValue raw).mapError fun reason => .invalidSample index reason.message

theorem decode_of_event {raw : Value} {event : Event} (h : eventOfValue raw = .ok event)
    (index : Nat) : decode index raw = .ok event := by
  rw [decode, h]
  rfl

theorem decode_of_reason {raw : Value} {reason : Reason} (h : eventOfValue raw = .error reason)
    (index : Nat) : decode index raw = .error (.invalidSample index reason.message) := by
  rw [decode, h]
  rfl

theorem decode_eq_ok {index : Nat} {raw : Value} {event : Event} :
    decode index raw = .ok event ↔ eventOfValue raw = .ok event := by
  constructor
  · intro h
    cases hr : eventOfValue raw with
    | error reason => rw [decode_of_reason hr] at h; cases h
    | ok decoded =>
      rw [decode_of_event hr] at h
      rw [Except.ok.inj h]
  · intro h
    exact decode_of_event h index

theorem decode_eq_error {index : Nat} {raw : Value} {fault : Fault} :
    decode index raw = .error fault ↔
      ∃ reason, eventOfValue raw = .error reason ∧ fault = .invalidSample index reason.message := by
  constructor
  · intro h
    cases hr : eventOfValue raw with
    | error reason =>
      rw [decode_of_reason hr] at h
      exact ⟨reason, rfl, (Except.error.inj h).symm⟩
    | ok event => rw [decode_of_event hr] at h; cases h
  · rintro ⟨reason, hr, rfl⟩
    exact decode_of_reason hr index

end Sample

/-! ## Delivery

Samples are delivered one after the other. Time may stand still but not go back, and nothing comes
after a fault. -/

structure Cursor where
  rest : List Value
  index : Nat
  lastTime : Option UInt32
  failed : Bool

namespace Cursor

def start (samples : List Value) : Cursor := ⟨samples, 0, none, false⟩

def inOrder (index : Nat) (lastTime : Option UInt32) (event : Event) :
    Except Fault (Option UInt32) :=
  match event, lastTime with
  | .time current, some previous =>
    if current < previous then .error (.timeOrder index previous current) else .ok (some current)
  | .time current, none => .ok (some current)
  | _, _ => .ok lastTime

/-- The next item and the cursor behind it; nothing at the end and after a fault. -/
def next? (cursor : Cursor) : Option (Except Fault Event × Cursor) :=
  match cursor.failed, cursor.rest with
  | true, _ => none
  | false, [] => none
  | false, raw :: rest =>
    let item : Except Fault (Event × Option UInt32) := do
      let event ← Sample.decode cursor.index raw
      let lastTime ← inOrder cursor.index cursor.lastTime event
      .ok (event, lastTime)
    match item with
    | .ok (event, lastTime) => some (.ok event, ⟨rest, cursor.index + 1, lastTime, false⟩)
    | .error fault => some (.error fault, ⟨rest, cursor.index + 1, cursor.lastTime, true⟩)

@[simp] theorem next_failed {cursor : Cursor} (h : cursor.failed = true) : cursor.next? = none := by
  simp [next?, h]

@[simp] theorem next_end {cursor : Cursor} (h : cursor.rest = []) : cursor.next? = none := by
  cases hf : cursor.failed <;> simp [next?, h, hf]

def take : Nat → Cursor → List (Except Fault Event)
  | 0, _ => []
  | count + 1, cursor =>
    match cursor.next? with
    | none => []
    | some (item, cursor) => item :: take count cursor

def items (samples : List Value) : List (Except Fault Event) := take samples.length (start samples)

end Cursor

end DiveTable
