import DiveTable.Proofs.RowSegments
import Mathlib.Data.List.DropRight

/-! # The row in progress

What an accumulator has been fed can be read off its state: `Tells` says how, one event keeps it
and so every run does. A row leaves the accumulator as it stands when the next time or the end
comes, and no row is handed out twice or left out. -/
namespace DiveTable

namespace Event

/-- The events behind the last time, or all of them if there is none. -/
def sinceTime (past : List Event) : List Event := past.rtakeWhile fun e => !e.isTime

@[simp] theorem sinceTime_time (past : List Event) (ms : UInt32) :
    sinceTime (past ++ [time ms]) = [] :=
  List.rtakeWhile_concat_neg _ _ _ (by simp)

theorem sinceTime_timeless (past : List Event) {event : Event} (h : event.isTime = false) :
    sinceTime (past ++ [event]) = sinceTime past ++ [event] :=
  List.rtakeWhile_concat_pos _ _ _ (by simp [h])

/-- The last value of a kind is that of the newest event, if it has one. -/
theorem getLast_filterMap_concat {α : Type} (value? : Event → Option α) (past : List Event)
    (event : Event) :
    ((past ++ [event]).filterMap value?).getLast? =
      (value? event).or (past.filterMap value?).getLast? := by
  rw [List.filterMap_append]
  cases h : value? event <;> simp [h]

end Event

namespace Row

theorem time_apply (row : Row) (event : Event) : (row.apply event).time = row.time := by
  cases event <;> simp [apply]

theorem get_apply (row : Row) (event : Event) (q : Quantity) :
    (row.apply event).get q = (event.reading? q).or (row.get q) := by
  cases event with
  | reading p x => by_cases same : p = q <;> simp [apply, Event.reading?, same]
  | time | deco | other => cases q <;> rfl

theorem deco_apply (row : Row) (event : Event) :
    (row.apply event).deco = event.deco?.getD row.deco := by
  cases event <;> simp [apply, Event.deco?]

end Row

namespace Accumulator

/-- The state of an accumulator that has been fed the events of `past`. The open row has what
came behind the last time; in front of the first it is filled, but not handed out. -/
structure Tells (past : List Event) (a : Accumulator) : Prop where
  rowsEmitted : a.rowsEmitted = past.countP Event.isTime - 1
  ignoredEvents : a.ignoredEvents = past.countP Event.isOther
  opened : a.current.opened = true ↔ 0 < past.countP Event.isTime
  time : a.current.time = (past.filterMap Event.time?).getLast?.getD 0
  reading : ∀ q, a.current.get q =
    ((Event.sinceTime past).filterMap (Event.reading? q)).getLast?
  deco : a.current.deco = ((Event.sinceTime past).filterMap Event.deco?).getLast?.getD .clear

theorem tells_start : Tells [] start where
  rowsEmitted := rfl
  ignoredEvents := rfl
  opened := by simp [start, Row.empty]
  time := rfl
  reading := by
    intro q
    cases q <;> rfl
  deco := rfl

theorem rowsEmitted_feed (a : Accumulator) (event : Event) :
    (a.feed event).2.rowsEmitted = a.rowsEmitted + (a.feed event).1.toList.length := by
  cases event <;> rfl

section

variable {past : List Event} {a : Accumulator}

theorem closed_of_tells (h : Tells past a) :
    closed a.current = if 0 < past.countP Event.isTime then some a.current else none :=
  if_congr h.opened rfl rfl

/-- A time hands out the open row, unless it is the first, and opens an empty one. -/
theorem tells_feed_time (h : Tells past a) (ms : UInt32) :
    Tells (past ++ [.time ms]) (a.feed (.time ms)).2 where
  rowsEmitted := by
    rw [rowsEmitted_feed, h.rowsEmitted, List.countP_append, feed_time, closed_of_tells h]
    by_cases later : 0 < past.countP Event.isTime
    · rw [if_pos later]
      exact Nat.sub_add_cancel later
    · rw [if_neg later, Nat.eq_zero_of_not_pos later]
      rfl
  ignoredEvents := by simpa [List.countP_append] using h.ignoredEvents
  opened := by simp [Row.openedAt, List.countP_append]
  time := by simp [Row.openedAt]
  reading := by
    intro q
    cases q <;> simp [Row.openedAt, Row.empty, Row.get]
  deco := by simp [Row.openedAt, Row.empty]

/-- Every other event changes its field of the open row, or none. -/
theorem tells_feed_timeless (h : Tells past a) {event : Event} (timeless : event.isTime = false) :
    Tells (past ++ [event]) (a.feed event).2 := by
  obtain ⟨kept, current⟩ := feed_of_timeless a timeless
  have since := Event.sinceTime_timeless past timeless
  have times : (past ++ [event]).countP Event.isTime = past.countP Event.isTime := by
    simp [List.countP_append, timeless]
  constructor
  · rw [rowsEmitted_feed, kept, times]
    exact h.rowsEmitted
  · rw [ignoredEvents_feed, h.ignoredEvents, List.countP_append, List.countP_singleton]
  · rw [current, opened_apply, times]
    exact h.opened
  · have none : event.time? = none := by
      cases event with
      | time ms => cases timeless
      | reading | deco | other => rfl
    rw [current, Row.time_apply, Event.getLast_filterMap_concat, none, Option.none_or]
    exact h.time
  · intro q
    rw [current, Row.get_apply, since, Event.getLast_filterMap_concat, h.reading q]
  · rw [current, Row.deco_apply, since, Event.getLast_filterMap_concat, h.deco, Option.getD_or]

theorem tells_feed (h : Tells past a) (event : Event) :
    Tells (past ++ [event]) (a.feed event).2 := by
  rcases event.time_or_timeless with ⟨ms, rfl⟩ | timeless
  · exact tells_feed_time h ms
  · exact tells_feed_timeless h timeless

end

theorem tells_after (past : List Event) : Tells past (start.after past) := by
  induction past using List.reverseRecOn with
  | nil => exact tells_start
  | append_singleton past event ih =>
    rw [after_append]
    exact tells_feed ih event

/-! ## Rows that are handed out -/

theorem feed_of_tells {past : List Event} {a : Accumulator} (h : Tells past a) (event : Event) :
    (a.feed event).1 =
      if event.isTime = true ∧ 0 < past.countP Event.isTime then some a.current else none := by
  rcases event.time_or_timeless with ⟨ms, rfl⟩ | timeless
  · rw [feed_time, closed_of_tells h]
    exact if_congr (by simp) rfl rfl
  · rw [(feed_of_timeless a timeless).1, if_neg (by simp [timeless])]

theorem rowsEmitted_after (a : Accumulator) (events : List Event) :
    (a.after events).rowsEmitted = a.rowsEmitted + (a.closedBy events).length := by
  induction events generalizing a with
  | nil => rfl
  | cons event rest ih =>
    rw [after, ih, rowsEmitted_feed, closedBy, List.length_append, Nat.add_assoc]

theorem length_closedBy (past : List Event) :
    (start.closedBy past).length = past.countP Event.isTime - 1 := by
  have emitted := rowsEmitted_after start past
  rw [(tells_after past).rowsEmitted] at emitted
  exact (emitted.trans (Nat.zero_add _)).symm

/-- Whatever comes to an open row next, a time or the end, takes it as it is. -/
theorem head_rowsFrom {a : Accumulator} (opened : a.current.opened = true) {later : List Event}
    (h : ∀ e ∈ later.head?, e.isTime = true) : (a.rowsFrom later).head? = some a.current := by
  have handed : closed a.current = some a.current := if_pos opened
  cases later with
  | nil => rw [rowsFrom_nil, finish, handed, Option.toList_some, List.head?_cons]
  | cons event rest =>
    rcases event.time_or_timeless with ⟨ms, rfl⟩ | timeless
    · rw [rowsFrom_cons, feed_time, handed, Option.toList_some, List.singleton_append,
        List.head?_cons]
    · rw [h event rfl] at timeless
      cases timeless

/-- The row of a time has its place behind the rows of the times before. -/
theorem row_of_time (before inside later : List Event) (ms : UInt32)
    (timeless : ∀ e ∈ inside, e.isTime = false) (h : ∀ e ∈ later.head?, e.isTime = true) :
    (rows (before ++ .time ms :: inside ++ later))[before.countP Event.isTime]? =
      some (start.after (before ++ .time ms :: inside)).current := by
  have count : (before ++ .time ms :: inside).countP Event.isTime =
      before.countP Event.isTime + 1 := by
    have none : inside.countP Event.isTime = 0 := by
      simpa [List.countP_eq_zero] using timeless
    rw [List.countP_append, List.countP_cons_of_pos rfl, none]
  have opened := (tells_after (before ++ .time ms :: inside)).opened.2 (by omega)
  have length := length_closedBy (before ++ .time ms :: inside)
  rw [count, Nat.add_sub_cancel] at length
  rw [rows, rowsFrom_append, List.getElem?_append_right (by omega), length, Nat.sub_self,
    ← List.head?_eq_getElem?]
  exact head_rowsFrom opened h

/-- The state tells what has been fed. The next time takes the open row if a time opened it, and
so does the end; as many rows are handed out as there were times, and the row of a time is the
open row at the end of its segment. -/
theorem open_row_of_run (past : List Event) :
    Tells past (start.after past) ∧
    (∀ event, ((start.after past).feed event).1 =
      if event.isTime = true ∧ 0 < past.countP Event.isTime then some (start.after past).current
      else none) ∧
    ((start.after past).finish =
      if 0 < past.countP Event.isTime then some (start.after past).current else none) ∧
    (start.closedBy past ++ (start.after past).finish.toList).length =
      past.countP Event.isTime ∧
    ∀ before ms inside later, past = before ++ .time ms :: inside ++ later →
      (∀ e ∈ inside, e.isTime = false) → (∀ e ∈ later.head?, e.isTime = true) →
      (start.closedBy past ++ (start.after past).finish.toList)[before.countP Event.isTime]? =
        some (start.after (before ++ .time ms :: inside)).current := by
  have told := tells_after past
  rw [← rowsFrom_eq_closedBy]
  refine ⟨told, feed_of_tells told, closed_of_tells told, length_rows past, ?_⟩
  rintro before ms inside later rfl timeless ends
  exact row_of_time before inside later ms timeless ends

example : ((start.after [.reading .depth .zero, .time 5, .time 5]).rowsEmitted,
    (start.after [.reading .depth .zero]).finish) = (1, none) := by
  decide

end Accumulator

end DiveTable
