import DiveTable.Event

/-! One line of a table: the latest values known at one time. -/
namespace DiveTable

def wholeSeconds (ms : UInt32) : Nat := ms.toNat / 1000

structure Row where
  time : UInt32
  depth : Option Binary64
  temperature : Option Binary64
  ppo2 : Option Binary64
  cns : Option Binary64
  setpoint : Option Binary64
  deco : Deco
  /-- Whether a time event opened the row; only such rows are handed out. -/
  opened : Bool
  deriving DecidableEq, Repr

namespace Row

def empty : Row := ⟨0, none, none, none, none, none, .clear, false⟩

def openedAt (ms : UInt32) : Row := { empty with time := ms, opened := true }

def seconds (row : Row) : Nat := wholeSeconds row.time

def get (row : Row) : Quantity → Option Binary64
  | .depth => row.depth
  | .temperature => row.temperature
  | .ppo2 => row.ppo2
  | .cns => row.cns
  | .setpoint => row.setpoint

def set (row : Row) (quantity : Quantity) (value : Binary64) : Row :=
  match quantity with
  | .depth => { row with depth := some value }
  | .temperature => { row with temperature := some value }
  | .ppo2 => { row with ppo2 := some value }
  | .cns => { row with cns := some value }
  | .setpoint => { row with setpoint := some value }

@[simp] theorem get_set (row : Row) (q p : Quantity) (x : Binary64) :
    (row.set q x).get p = if q = p then some x else row.get p := by
  cases q <;> cases p <;> rfl

@[simp] theorem time_set (row : Row) (q : Quantity) (x : Binary64) :
    (row.set q x).time = row.time := by
  cases q <;> rfl

@[simp] theorem deco_set (row : Row) (q : Quantity) (x : Binary64) :
    (row.set q x).deco = row.deco := by
  cases q <;> rfl

@[simp] theorem opened_set (row : Row) (q : Quantity) (x : Binary64) :
    (row.set q x).opened = row.opened := by
  cases q <;> rfl

def apply (row : Row) : Event → Row
  | .reading quantity value => row.set quantity value
  | .deco state => { row with deco := state }
  | .time _ => row
  | .other _ => row

end Row

/-! ## Fields

The nine columns of a table and the text of each field. A value that is not known leaves its field
empty. -/

def header : List String :=
  ["Time", "Depth", "Temperature", "PPO2", "CNS", "Setpoint", "DecoType", "DecoTime", "DecoDepth"]

def DecoStatus.token : DecoStatus → String
  | .ndl => "NDL"
  | .decoStop => "DECOSTOP"
  | .safetyStop => "SAFETYSTOP"

def optionalText (value : Option Binary64) (places : Nat) : String :=
  match value with
  | some x => x.fixedText places
  | none => ""

namespace Row

def field (row : Row) (quantity : Quantity) : String :=
  optionalText (row.get quantity) quantity.places

def fields (row : Row) : List String :=
  [row.seconds.repr, row.field .depth, row.field .temperature, row.field .ppo2, row.field .cns,
    row.field .setpoint, row.deco.status.token, row.deco.seconds.toNat.repr,
    row.deco.depth.fixedText 2]

theorem length_fields (row : Row) : row.fields.length = header.length := rfl

def line (row : Row) : String := ",".intercalate row.fields

end Row

end DiveTable
