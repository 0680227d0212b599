import DiveTable.Row.Accumulator
import DiveTable.Row
import DiveTable.Table.Writer
import DiveTable.Trace

/-! From a stream of events to a table, row by row. A fault of the stream ends it, and the row in
progress is still written; only a fault of the sink is a failure of the conversion. -/
namespace DiveTable

structure Summary where
  rowsWritten : Nat
  eventsSeen : Nat
  ignoredEvents : Nat
  /-- The fault that ended the stream early. -/
  fault : Option Fault
  deriving DecidableEq, Repr

def Summary.isTruncated (summary : Summary) : Bool := summary.fault.isSome

structure Conversion where
  writer : Writer
  accumulator : Accumulator
  rowsWritten : Nat
  eventsSeen : Nat

namespace Conversion

def writeRow (c : Conversion) : Option Row → Except (Fault × Sink) Conversion
  | none => .ok c
  | some row =>
    match c.writer.put row.fields with
    | .error refusal => .error refusal
    | .ok writer => .ok { c with writer, rowsWritten := c.rowsWritten + 1 }

def start (sink : Sink) : Except (Fault × Sink) Conversion :=
  match (Writer.new sink).put header with
  | .error refusal => .error refusal
  | .ok writer => .ok ⟨writer, .start, 0, 0⟩

def remarks : Event → List String
  | .other name => ["Ignoring sample of kind '" ++ name ++ "'"]
  | _ => []

def step (debug : Bool) (c : Conversion) (event : Event) :
    Trace (Fault × Sink) Conversion := do
  Trace.say debug (remarks event)
  let (row, accumulator) := c.accumulator.feed event
  Trace.ofExcept (writeRow { c with accumulator, eventsSeen := c.eventsSeen + 1 } row)

def run (debug : Bool) (c : Conversion) :
    List (Except Fault Event) → Trace (Fault × Sink) (Conversion × Option Fault)
  | [] => Trace.pure (c, none)
  | .error fault :: _ => do
    Trace.say debug ["Sample stream stopped after " ++ c.eventsSeen.repr ++ " events: " ++
      fault.message]
    return (c, some fault)
  | .ok event :: rest => do
    let c ← step debug c event
    run debug c rest

def finish (c : Conversion) (fault : Option Fault) : Except (Fault × Sink) (Summary × Sink) :=
  match c.writeRow c.accumulator.finish with
  | .error refusal => .error refusal
  | .ok c =>
    match c.writer.flush with
    | .error refusal => .error refusal
    | .ok sink =>
      .ok (⟨c.rowsWritten, c.eventsSeen, c.accumulator.ignoredEvents, fault⟩, sink)

end Conversion

/-- Writes the table of a stream of events into a sink, which is handed back even if it fails. -/
def convertInto (debug : Bool) (items : List (Except Fault Event)) (sink : Sink) :
    Trace (Fault × Sink) (Summary × Sink) := do
  let c ← Trace.ofExcept (Conversion.start sink)
  let (c, fault) ← c.run debug items
  let (summary, sink) ← Trace.ofExcept (c.finish fault)
  Trace.say debug ["Exported " ++ summary.rowsWritten.repr ++ " data rows from " ++
    summary.eventsSeen.repr ++ " events (" ++ summary.ignoredEvents.repr ++ " ignored)"]
  return (summary, sink)

def convert (debug : Bool) (items : List (Except Fault Event)) (sink : Sink) :
    Trace Fault (Summary × Sink) :=
  (convertInto debug items sink).mapError Prod.fst

def tableText (rows : List Row) : String :=
  String.join ((",".intercalate header ++ "\n") :: rows.map fun row => row.line ++ "\n")

end DiveTable
