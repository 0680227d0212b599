import DiveTable.Row

/-! Folding events into rows. A time event closes the row in progress and opens the next; every
other event changes the row in progress. Nothing is carried from one row to the next. -/
namespace DiveTable

structure Accumulator where
  current : Row
  rowsEmitted : Nat
  ignoredEvents : Nat
  deriving DecidableEq, Repr

namespace Accumulator

def start : Accumulator := ⟨.empty, 0, 0⟩

/-- A row is handed out only if a time event opened it. -/
def closed (row : Row) : Option Row := if row.opened then some row else none

def feed (a : Accumulator) : Event → Option Row × Accumulator
  | .time ms =>
    (closed a.current,
      { a with
        current := .openedAt ms
        rowsEmitted := a.rowsEmitted + (closed a.current).toList.length })
  | .other _ => (none, { a with ignoredEvents := a.ignoredEvents + 1 })
  | event => (none, { a with current := a.current.apply event })

@[simp] theorem feed_time (a : Accumulator) (ms : UInt32) :
    a.feed (.time ms) = (closed a.current,
      { a with
        current := .openedAt ms
        rowsEmitted := a.rowsEmitted + (closed a.current).toList.length }) := rfl

@[simp] theorem feed_other (a : Accumulator) (name : String) :
    a.feed (.other name) = (none, { a with ignoredEvents := a.ignoredEvents + 1 }) := rfl

@[simp] theorem feed_reading (a : Accumulator) (q : Quantity) (x : Binary64) :
    a.feed (.reading q x) = (none, { a with current := a.current.set q x }) := rfl

@[simp] theorem feed_deco (a : Accumulator) (state : Deco) :
    a.feed (.deco state) = (none, { a with current := { a.current with deco := state } }) := rfl

def finish (a : Accumulator) : Option Row := closed a.current

/-- The rows that a run of events closes, and the one it leaves in progress. -/
def rowsFrom (a : Accumulator) : List Event → List Row
  | [] => a.finish.toList
  | event :: rest => (a.feed event).1.toList ++ rowsFrom (a.feed event).2 rest

@[simp] theorem rowsFrom_nil (a : Accumulator) : a.rowsFrom [] = a.finish.toList := rfl

theorem rowsFrom_cons (a : Accumulator) (event : Event) (rest : List Event) :
    a.rowsFrom (event :: rest) = (a.feed event).1.toList ++ (a.feed event).2.rowsFrom rest := rfl

def rows (events : List Event) : List Row := start.rowsFrom events

end Accumulator

end DiveTable
