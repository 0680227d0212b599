import DiveTable.Number.Binary64

/-! What one sample of a dive says: the time that has come, a reading, the decompression state,
or something that tables do not carry. -/
namespace DiveTable

inductive Quantity where
  | depth
  | temperature
  | ppo2
  | cns
  | setpoint
  deriving DecidableEq, Repr

namespace Quantity

def all : List Quantity := [depth, temperature, ppo2, cns, setpoint]

def name : Quantity → String
  | depth => "depth"
  | temperature => "temperature"
  | ppo2 => "ppo2"
  | cns => "cns"
  | setpoint => "setpoint"

def ofName? (name : String) : Option Quantity := all.find? fun q => q.name == name

def places : Quantity → Nat
  | temperature => 1
  | _ => 2

@[simp] theorem ofName_name (q : Quantity) : ofName? q.name = some q := by
  cases q <;> decide

end Quantity

inductive DecoStatus where
  /-- Within the no-decompression limit. -/
  | ndl
  | decoStop
  | safetyStop
  deriving DecidableEq, Repr

/-- Seconds left, of the limit or of the stop, and the depth of the stop in metres. -/
structure Deco where
  status : DecoStatus
  seconds : UInt32
  depth : Binary64
  deriving DecidableEq, Repr

def Deco.clear : Deco := ⟨.ndl, 0, .zero⟩

inductive Event where
  /-- Milliseconds since the start of the dive. -/
  | time (ms : UInt32)
  | reading (quantity : Quantity) (value : Binary64)
  | deco (state : Deco)
  | other (name : String)
  deriving DecidableEq, Repr

namespace Event

def kind : Event → String
  | time _ => "time"
  | reading quantity _ => quantity.name
  | deco _ => "deco"
  | other name => name

def isTime : Event → Bool
  | time _ => true
  | _ => false

def isOther : Event → Bool
  | other _ => true
  | _ => false

def time? : Event → Option UInt32
  | time ms => some ms
  | _ => none

def reading? (quantity : Quantity) : Event → Option Binary64
  | reading q value => if q = quantity then some value else none
  | _ => none

def deco? : Event → Option Deco
  | deco state => some state
  | _ => none

@[simp] theorem isTime_time (ms : UInt32) : (time ms).isTime = true := rfl
@[simp] theorem isTime_reading (q : Quantity) (x : Binary64) : (reading q x).isTime = false := rfl
@[simp] theorem isTime_deco (state : Deco) : (deco state).isTime = false := rfl
@[simp] theorem isTime_other (name : String) : (other name).isTime = false := rfl

theorem time_or_timeless (event : Event) : (∃ ms, event = time ms) ∨ event.isTime = false := by
  cases event with
  | time ms => exact .inl ⟨ms, rfl⟩
  | reading | deco | other => exact .inr rfl

@[simp] theorem time?_time (ms : UInt32) : (time ms).time? = some ms := rfl
@[simp] theorem time?_reading (q : Quantity) (x : Binary64) : (reading q x).time? = none := rfl
@[simp] theorem time?_deco (state : Deco) : (deco state).time? = none := rfl
@[simp] theorem time?_other (name : String) : (other name).time? = none := rfl

theorem time?_eq_some {event : Event} {ms : UInt32} :
    event.time? = some ms ↔ event = time ms := by
  cases event <;> simp

@[simp] theorem isOther_time (ms : UInt32) : (time ms).isOther = false := rfl
@[simp] theorem isOther_reading (q : Quantity) (x : Binary64) : (reading q x).isOther = false := rfl
@[simp] theorem isOther_deco (state : Deco) : (deco state).isOther = false := rfl
@[simp] theorem isOther_other (name : String) : (other name).isOther = true := rfl

end Event

end DiveTable
