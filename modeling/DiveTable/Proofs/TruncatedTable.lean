import DiveTable.Proofs.DumpTable

/-! # Truncated tables

A fault ends the stream, but what was delivered in front of it does not depend on what would have
come behind. So a table that a fault has cut short can be trusted: only its last line, the row that
was in progress, may be another in the table of a longer stream, and that shows the same time. -/
namespace DiveTable

namespace Items

variable {ε α : Type}

theorem events_of_fault {items : List (Except ε α)} {k : Nat} {fault : ε}
    (h : items[k]? = some (.error fault)) (reached : Reached items k) :
    events items = events (items.take k) ∧ fault? items = some fault ∧
      fault? (items.take k) = none := by
  induction items generalizing k with
  | nil => cases h
  | cons item items ih =>
    cases k with
    | zero =>
      obtain rfl : item = .error fault := Option.some.inj h
      exact ⟨rfl, rfl, rfl⟩
    | succ k =>
      obtain ⟨⟨event, rfl⟩, later⟩ := reached_cons.1 reached
      obtain ⟨same, fault, none⟩ := ih (by simpa using h) later
      exact ⟨by simp [events, same], fault, none⟩

end Items

namespace Dump

def cut (dump : Dump) (k : Nat) : Dump := { dump with samples := dump.samples.take k }

theorem items_cut (dump : Dump) (k : Nat) : (dump.cut k).items = dump.items.take k :=
  Cursor.items_take dump.samples k

/-- A dump that is cut in front of its first fault has the same events, and no fault. -/
theorem items_of_fault {dump : Dump} {k : Nat} {fault : Fault}
    (stops : dump.items[k]? = some (.error fault)) :
    Items.events dump.items = Items.events (dump.cut k).items ∧
      Items.fault? dump.items = some fault ∧ Items.fault? (dump.cut k).items = none := by
  rw [items_cut]
  exact Items.events_of_fault stops (Cursor.reached_of_item stops)

end Dump

namespace Accumulator

/-- Later events leave the rows of a run as they are, but for the row in progress, which keeps its
time. -/
theorem rows_append (events later : List Event) :
    ∃ front more, rows (events ++ later) = front ++ more ∧
      (rows events = front ∨ ∃ last next rest, rows events = front ++ [last] ∧
        more = next :: rest ∧ next.time = last.time) := by
  obtain ⟨reached, within⟩ := within_after within_start events
  refine ⟨start.closedBy events, (start.after events).rowsFrom later,
    rowsFrom_append start events later, ?_⟩
  have closed : rows events = start.closedBy events ++ reached.toList.map Segment.row := by
    rw [rows, rowsFrom_eq_closedBy, finish_of_within within]
    cases reached <;> rfl
  cases reached with
  | none => exact .inl (by simpa using closed)
  | some s =>
    refine .inr ⟨s.row, _, _, closed, rowsFrom_of_within within later, ?_⟩
    rfl

end Accumulator

/-- A table beside a longer one: its lines but the last are the first lines of the other, and where
its last line stands, the other has a line of the same time. -/
def FrontOf (text text' : String) : Prop :=
  ∃ front last line more, splitAt '\n' text.toList = front ++ [last] ++ [[]] ∧
    splitAt '\n' text'.toList = front ++ line :: more ++ [[]] ∧
    (splitAt ',' line).head? = (splitAt ',' last).head?

theorem frontOf_append (events later : List Event) :
    FrontOf (tableText (Accumulator.rows events))
      (tableText (Accumulator.rows (events ++ later))) := by
  obtain ⟨rows, more, long, short⟩ := Accumulator.rows_append events later
  simp only [FrontOf, splitAt_tableText, long]
  rcases short with same | ⟨last, next, rest, same, rfl, time⟩
  · -- No row was in progress: the whole shorter table is a front of the longer one.
    obtain ⟨front, last, lines⟩ : ∃ front last,
        (tableLines rows).map String.toList = front ++ [last] :=
      ⟨_, _, (List.dropLast_concat_getLast (by simp [tableLines])).symm⟩
    refine ⟨front, last, last, more.map fun row => row.line.toList, by rw [same, lines], ?_, rfl⟩
    have longer : (tableLines (rows ++ more)).map String.toList =
        (tableLines rows).map String.toList ++ more.map fun row => row.line.toList := by
      simp [tableLines]
    rw [longer, lines, List.append_assoc front [last]]
    rfl
  · refine ⟨(tableLines rows).map String.toList, last.line.toList, next.line.toList,
      rest.map fun row => row.line.toList, by simp [same, tableLines], by simp [tableLines], ?_⟩
    rw [head_splitAt_line, head_splitAt_line, Row.seconds, Row.seconds, time]

/-- Two dumps that agree up to the fault of the first: the table that the fault has cut short is a
front of the other table, and it is the table of the samples in front of the fault. -/
theorem truncated_table_front (debug : Bool) (dump dump' : Dump) (k : Nat) (fault : Fault)
    (agree : dump.samples.take k = dump'.samples.take k)
    (stops : dump.items[k]? = some (.error fault)) :
    ∃ summary text summary' text',
      (convert debug dump.items .empty).outcome = .ok (summary, .memory text) ∧
      summary.fault = some fault ∧
      (convert debug dump'.items .empty).outcome = .ok (summary', .memory text') ∧
      FrontOf text text' ∧
      (convert debug (dump.cut k).items .empty).outcome =
        .ok ({ summary with fault := none }, .memory text) := by
  obtain ⟨events, faulty, sound⟩ := Dump.items_of_fault stops
  have common : (dump.cut k).items = dump'.items.take k := by
    rw [← Dump.items_cut, Dump.items, Dump.items, Dump.cut, Dump.cut, agree]
  have longer : Items.events dump'.items =
      Items.events dump.items ++ (Items.events dump'.items).drop k := by
    rw [events, common, Items.events_take, List.take_append_drop]
  have front := frontOf_append (Items.events dump.items) ((Items.events dump'.items).drop k)
  rw [← longer] at front
  have converted := convert_memory debug dump.items ""
  have converted' := convert_memory debug dump'.items ""
  have whole := convert_memory debug (dump.cut k).items ""
  rw [String.empty_append] at converted converted' whole
  rw [faulty] at converted
  rw [← events, sound] at whole
  exact ⟨_, _, _, _, converted, rfl, converted', front, whole⟩

def sampleOf (kind : String) (n : UInt64) : Json.Value :=
  .array [.string kind, .number (.natural n)]

def dumpOf (samples : List Json.Value) : Dump where
  device := ⟨"Divesoft", "Freedom"⟩
  version := ⟨1, 0, 0, [], []⟩
  dateTime? := none
  maxDepth? := none
  diveTime? := none
  samples := samples

def dumpCutShort : Dump :=
  dumpOf [sampleOf "time" 0, sampleOf "depth" 2, sampleOf "time" 2000, sampleOf "time" 1000]

def dumpCarriedOn : Dump :=
  dumpOf [sampleOf "time" 0, sampleOf "depth" 2, sampleOf "time" 2000, sampleOf "depth" 7,
    sampleOf "time" 9000]

theorem front_of_dumpCarriedOn :
    dumpCutShort.samples.take 3 = dumpCarriedOn.samples.take 3 ∧
      dumpCutShort.items[3]? = some (.error (.timeOrder 3 2000 1000)) ∧
      ∃ summary text summary' text',
        (convert false dumpCutShort.items .empty).outcome = .ok (summary, .memory text) ∧
        summary.fault = some (.timeOrder 3 2000 1000) ∧
        (convert false dumpCarriedOn.items .empty).outcome = .ok (summary', .memory text') ∧
        FrontOf text text' := by
  have agree : dumpCutShort.samples.take 3 = dumpCarriedOn.samples.take 3 := rfl
  have stops : dumpCutShort.items[3]? = some (.error (.timeOrder 3 2000 1000)) := by rfl
  obtain ⟨summary, text, summary', text', short, fault, long, front, -⟩ :=
    truncated_table_front false dumpCutShort dumpCarriedOn 3 _ agree stops
  exact ⟨agree, stops, summary, text, summary', text', short, fault, long, front⟩

end DiveTable
