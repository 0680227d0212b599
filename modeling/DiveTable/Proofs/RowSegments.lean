import DiveTable.Row.Accumulator

/-! # Rows and segments

The accumulator keeps one row open and hands it out when the next time comes. Its state follows
the segment under way: in front of the first time there is none and the open row is never handed
out; behind it the open row is the row of the segment so far. -/
namespace DiveTable

/-- A time with the events up to the next one; events in front of the first time belong to
none. -/
structure Segment where
  time : UInt32
  events : List Event
  deriving DecidableEq, Repr

namespace Segment

def cut : List Event → List Segment
  | [] => []
  | .time ms :: rest => ⟨ms, rest.takeWhile fun e => !e.isTime⟩ :: cut rest
  | _ :: rest => cut rest

def last (segment : Segment) (quantity : Quantity) : Option Binary64 :=
  (segment.events.filterMap (Event.reading? quantity)).getLast?

def row (segment : Segment) : Row where
  time := segment.time
  depth := segment.last .depth
  temperature := segment.last .temperature
  ppo2 := segment.last .ppo2
  cns := segment.last .cns
  setpoint := segment.last .setpoint
  deco := (segment.events.filterMap Event.deco?).getLast?.getD .clear
  opened := true

def run (segment : Segment) : List Event := .time segment.time :: segment.events

/-- A run of events cut at each of its times; what stands in front of the first is dropped. -/
structure Cuts (events : List Event) (segments : List Segment) : Prop where
  timeless : ∀ s ∈ segments, ∀ e ∈ s.events, e.isTime = false
  joined : ∃ dropped : List Event, (∀ e ∈ dropped, e.isTime = false) ∧
    events = dropped ++ segments.flatMap run

theorem cut_of_timeless {event : Event} (h : event.isTime = false) (rest : List Event) :
    cut (event :: rest) = cut rest := by
  cases event with
  | time ms => cases h
  | reading | deco | other => rfl

theorem takeWhile_append_runs (events : List Event) :
    (events.takeWhile fun e => !e.isTime) ++ (cut events).flatMap run = events := by
  induction events with
  | nil => rfl
  | cons event rest ih =>
    rcases event.time_or_timeless with ⟨ms, rfl⟩ | ht
    · simp [cut, run, ih]
    · simp [cut_of_timeless ht, ht, ih]

theorem not_isTime_of_mem_takeWhile {events : List Event} {event : Event}
    (h : event ∈ events.takeWhile fun e => !e.isTime) : event.isTime = false := by
  have timeless := List.all_eq_true.1 List.all_takeWhile event h
  simpa using timeless

theorem timeless_cut {events : List Event} {s : Segment} (hs : s ∈ cut events) :
    ∀ e ∈ s.events, e.isTime = false := by
  induction events with
  | nil => cases hs
  | cons event rest ih =>
    cases event with
    | time ms =>
      rcases List.mem_cons.1 hs with rfl | hs
      · intro e he
        exact not_isTime_of_mem_takeWhile he
      · exact ih hs
    | reading | deco | other => exact ih hs

theorem cuts_cut (events : List Event) : Cuts events (cut events) where
  timeless := fun _ hs => timeless_cut hs
  joined := ⟨_, fun _ he => not_isTime_of_mem_takeWhile he, (takeWhile_append_runs events).symm⟩

theorem cut_append_of_timeless {dropped : List Event} (h : ∀ e ∈ dropped, e.isTime = false)
    (rest : List Event) : cut (dropped ++ rest) = cut rest := by
  induction dropped with
  | nil => rfl
  | cons event dropped ih =>
    rw [List.cons_append, cut_of_timeless (h event List.mem_cons_self),
      ih fun e he => h e (List.mem_cons_of_mem _ he)]

theorem takeWhile_timeless_append {inside : List Event} (h : ∀ e ∈ inside, e.isTime = false)
    (segments : List Segment) :
    (inside ++ segments.flatMap run).takeWhile (fun e => !e.isTime) = inside := by
  have next : (segments.flatMap run).takeWhile (fun e => !e.isTime) = [] := by
    cases segments <;> simp [run]
  rw [List.takeWhile_append_of_pos (by simpa using h), next, List.append_nil]

theorem cut_flatMap_run {segments : List Segment}
    (h : ∀ s ∈ segments, ∀ e ∈ s.events, e.isTime = false) :
    cut (segments.flatMap run) = segments := by
  induction segments with
  | nil => rfl
  | cons s segments ih =>
    have hs : ∀ e ∈ s.events, e.isTime = false := h s List.mem_cons_self
    have hsegments := ih fun t ht => h t (List.mem_cons_of_mem _ ht)
    simp only [List.flatMap_cons, run, List.cons_append, cut]
    rw [takeWhile_timeless_append hs, cut_append_of_timeless hs, hsegments]

/-- There is only one way to cut a run. -/
theorem cuts_iff {events : List Event} {segments : List Segment} :
    Cuts events segments ↔ segments = cut events := by
  constructor
  · rintro ⟨timeless, dropped, hdropped, rfl⟩
    rw [cut_append_of_timeless hdropped, cut_flatMap_run timeless]
  · rintro rfl
    exact cuts_cut events

theorem length_cut (events : List Event) : (cut events).length = events.countP Event.isTime := by
  induction events with
  | nil => rfl
  | cons event rest ih => cases event <;> simp [cut, List.countP_cons, ih]

theorem takeWhile_append_time (events later : List Event) (ms : UInt32) :
    (events ++ .time ms :: later).takeWhile (fun e => !e.isTime) =
      events.takeWhile fun e => !e.isTime := by
  induction events with
  | nil => rfl
  | cons event rest ih => cases ht : event.isTime <;> simp [ht, ih]

theorem map_time_cut (events : List Event) :
    (cut events).map Segment.time = events.filterMap Event.time? := by
  induction events with
  | nil => rfl
  | cons event rest ih => cases event <;> simp [cut, List.filterMap_cons, ih]

theorem cut_append_time (events later : List Event) (ms : UInt32) :
    cut (events ++ .time ms :: later) = cut events ++ cut (.time ms :: later) := by
  induction events with
  | nil => rfl
  | cons event rest ih => cases event <;> simp [cut, ih, takeWhile_append_time]

/-- An event behind a time stands in the segment that the last time in front of it opened. -/
theorem segment_of_event {before : List Event} {event : Event} (h : event.isTime = false)
    (after : List Event) {n : Nat} (count : before.countP Event.isTime = n + 1) :
    ∃ s front, (cut (before ++ event :: after))[n]? = some s ∧
      s.events = front ++ event :: after.takeWhile fun e => !e.isTime := by
  induction before generalizing n with
  | nil => cases count
  | cons first before ih =>
    rcases first.time_or_timeless with ⟨ms, rfl⟩ | timeless
    · rw [List.countP_cons_of_pos rfl] at count
      cases n with
      | zero =>
        have none := List.countP_eq_zero.1 (Nat.succ.inj count)
        refine ⟨_, before, rfl, ?_⟩
        change (before ++ event :: after).takeWhile _ = _
        rw [List.takeWhile_append_of_pos fun e mem => by simpa using none e mem,
          List.takeWhile_cons_of_pos (by simp [h])]
      | succ n => exact ih (Nat.succ.inj count)
    · rw [List.countP_cons_of_neg (by simp [timeless])] at count
      rw [List.cons_append, cut_of_timeless timeless]
      exact ih count

theorem getLast_filterMap {α β : Type} {f : α → Option β} {a : α} {b : β} (h : f a = some b)
    (front : List α) {rest : List α} (none : ∀ x ∈ rest, f x = none) :
    ((front ++ a :: rest).filterMap f).getLast? = some b := by
  rw [List.filterMap_append, List.filterMap_cons_some h, List.filterMap_eq_nil_iff.2 none,
    List.getLast?_concat]

def next (current : Option Segment) : Event → Option Segment
  | .time ms => some ⟨ms, []⟩
  | event => current.map fun s => { s with events := s.events ++ [event] }

theorem next_of_timeless (current : Option Segment) {event : Event} (h : event.isTime = false) :
    next current event = current.map fun s => { s with events := s.events ++ [event] } := by
  cases event with
  | time ms => cases h
  | reading | deco | other => rfl

theorem row_append (s : Segment) (event : Event) :
    ({ s with events := s.events ++ [event] } : Segment).row = s.row.apply event := by
  cases event with
  | time ms => simp [row, last, Row.apply, Event.reading?, Event.deco?]
  | reading q x => cases q <;> simp [row, last, Row.apply, Row.set, Event.reading?, Event.deco?]
  | deco state => simp [row, last, Row.apply, Event.reading?, Event.deco?]
  | other name => simp [row, last, Row.apply, Event.reading?, Event.deco?]

def resume (current : Option Segment) (events : List Event) : List Segment :=
  (current.map fun s =>
    { s with events := s.events ++ events.takeWhile fun e => !e.isTime }).toList ++ cut events

theorem resume_nil (current : Option Segment) : resume current [] = current.toList := by
  cases current <;> simp [resume, cut]

theorem resume_time (current : Option Segment) (ms : UInt32) (rest : List Event) :
    resume current (.time ms :: rest) = current.toList ++ resume (some ⟨ms, []⟩) rest := by
  cases current <;> simp [resume, cut]

theorem resume_of_timeless (current : Option Segment) {event : Event}
    (h : event.isTime = false) (rest : List Event) :
    resume current (event :: rest) = resume (next current event) rest := by
  rw [next_of_timeless current h]
  cases current <;> simp [resume, cut_of_timeless h, h]

end Segment

namespace Accumulator

def after (a : Accumulator) : List Event → Accumulator
  | [] => a
  | event :: rest => (a.feed event).2.after rest

def closedBy (a : Accumulator) : List Event → List Row
  | [] => []
  | event :: rest => (a.feed event).1.toList ++ (a.feed event).2.closedBy rest

theorem after_append (a : Accumulator) (past : List Event) (event : Event) :
    a.after (past ++ [event]) = ((a.after past).feed event).2 := by
  induction past generalizing a with
  | nil => rfl
  | cons first past ih => exact ih (a.feed first).2

theorem closedBy_append (a : Accumulator) (past : List Event) (event : Event) :
    a.closedBy (past ++ [event]) = a.closedBy past ++ ((a.after past).feed event).1.toList := by
  induction past generalizing a with
  | nil => simp [closedBy, after]
  | cons first past ih =>
    rw [List.cons_append, closedBy, closedBy, ih, List.append_assoc]
    rfl

theorem rowsFrom_append (a : Accumulator) (past later : List Event) :
    a.rowsFrom (past ++ later) = a.closedBy past ++ (a.after past).rowsFrom later := by
  induction past generalizing a with
  | nil => rfl
  | cons event rest ih =>
    rw [List.cons_append, rowsFrom_cons, ih, closedBy, List.append_assoc]
    rfl

theorem rowsFrom_eq_closedBy (a : Accumulator) (events : List Event) :
    a.rowsFrom events = a.closedBy events ++ (a.after events).finish.toList := by
  simpa using a.rowsFrom_append events []

theorem ignoredEvents_feed (a : Accumulator) (event : Event) :
    (a.feed event).2.ignoredEvents = a.ignoredEvents + if event.isOther then 1 else 0 := by
  cases event <;> rfl

theorem ignoredEvents_after (a : Accumulator) (events : List Event) :
    (a.after events).ignoredEvents = a.ignoredEvents + events.countP Event.isOther := by
  induction events generalizing a with
  | nil => rfl
  | cons event rest ih =>
    rw [after, ih, ignoredEvents_feed, List.countP_cons, Nat.add_assoc,
      Nat.add_comm (List.countP _ _)]

/-- Where an accumulator stands: in front of the first time, or within a segment. -/
def Within (a : Accumulator) : Option Segment → Prop
  | none => a.current.opened = false
  | some segment => a.current = segment.row

theorem within_start : start.Within none := rfl

theorem finish_of_within {a : Accumulator} {current : Option Segment} (h : a.Within current) :
    a.finish = current.map Segment.row := by
  cases current with
  | none =>
    have hclosed : a.current.opened = false := h
    simp [finish, closed, hclosed]
  | some s =>
    have hrow : a.current = s.row := h
    simp [finish, closed, hrow, Segment.row]

theorem feed_of_timeless (a : Accumulator) {event : Event} (h : event.isTime = false) :
    (a.feed event).1 = none ∧ (a.feed event).2.current = a.current.apply event := by
  cases event with
  | time ms => cases h
  | reading | deco | other => exact ⟨rfl, rfl⟩

theorem opened_apply (row : Row) (event : Event) : (row.apply event).opened = row.opened := by
  cases event <;> simp [Row.apply]

/-- One event takes the accumulator along with the segment under way. -/
theorem within_feed {a : Accumulator} {current : Option Segment} (h : a.Within current)
    (event : Event) : (a.feed event).2.Within (Segment.next current event) := by
  rcases event.time_or_timeless with ⟨ms, rfl⟩ | ht
  · rfl
  · have hcurrent := (feed_of_timeless a ht).2
    rw [Segment.next_of_timeless current ht]
    cases current with
    | none =>
      have hclosed : a.current.opened = false := h
      show (a.feed event).2.current.opened = false
      rw [hcurrent, opened_apply, hclosed]
    | some s =>
      have hrow : a.current = s.row := h
      show (a.feed event).2.current = Segment.row { s with events := s.events ++ [event] }
      rw [hcurrent, hrow, Segment.row_append]

theorem within_after {a : Accumulator} {current : Option Segment} (h : a.Within current)
    (events : List Event) : ∃ reached, (a.after events).Within reached := by
  induction events generalizing a current with
  | nil => exact ⟨current, h⟩
  | cons event rest ih => exact ih (within_feed h event)

/-- The rows still to come are those of the segments still to come. -/
theorem rowsFrom_of_within {a : Accumulator} {current : Option Segment} (h : a.Within current)
    (events : List Event) :
    a.rowsFrom events = (Segment.resume current events).map Segment.row := by
  induction events generalizing a current with
  | nil =>
    rw [rowsFrom_nil, finish_of_within h, Segment.resume_nil]
    cases current <;> rfl
  | cons event rest ih =>
    rw [rowsFrom_cons, ih (within_feed h event)]
    rcases event.time_or_timeless with ⟨ms, rfl⟩ | ht
    · -- A time hands out what `finish` would, the row of the segment that it ends.
      have handed : (a.feed (.time ms)).1 = current.map Segment.row := finish_of_within h
      rw [handed, Segment.resume_time, List.map_append]
      cases current <;> rfl
    · rw [(feed_of_timeless a ht).1, Segment.resume_of_timeless current ht]
      rfl

theorem rows_eq_map_cut (events : List Event) :
    rows events = (Segment.cut events).map Segment.row :=
  rowsFrom_of_within within_start events

theorem length_rows (events : List Event) : (rows events).length = events.countP Event.isTime := by
  rw [rows_eq_map_cut, List.length_map, Segment.length_cut]

theorem map_time_rows (events : List Event) :
    (rows events).map Row.time = events.filterMap Event.time? := by
  rw [rows_eq_map_cut, List.map_map, ← Segment.map_time_cut]
  rfl

/-- Only the open row matters for what an event hands out and leaves open. -/
theorem feed_of_current_eq {a b : Accumulator} (h : a.current = b.current) (event : Event) :
    (a.feed event).1 = (b.feed event).1 ∧ (a.feed event).2.current = (b.feed event).2.current := by
  cases event <;> simp [h]

/-- Events that no table carries leave no mark on the rows. -/
theorem rowsFrom_filter {a b : Accumulator} (h : a.current = b.current) (events : List Event) :
    a.rowsFrom (events.filter fun e => !e.isOther) = b.rowsFrom events := by
  induction events generalizing a b with
  | nil => simp [finish, h]
  | cons event rest ih =>
    cases ho : event.isOther with
    | true =>
      cases event with
      | other name => simpa [rowsFrom_cons] using ih (b := (b.feed (.other name)).2) h
      | time | reading | deco => cases ho
    | false =>
      obtain ⟨same, current⟩ := feed_of_current_eq h event
      rw [List.filter_cons_of_pos (by simp [ho]), rowsFrom_cons, rowsFrom_cons, same, ih current]

/-- Each time of a run opens one row, which shows the events up to the next time and nothing else.
Cutting a run in front of a time cuts its rows. -/
theorem rows_follow_segments (events : List Event) :
    rows events = (Segment.cut events).map Segment.row ∧
    (∀ segments, Segment.Cuts events segments ↔ segments = Segment.cut events) ∧
    (rows events).length = events.countP Event.isTime ∧
    rows (events.filter fun e => !e.isOther) = rows events ∧
    ∀ ms later, rows (events ++ .time ms :: later) = rows events ++ rows (.time ms :: later) := by
  refine ⟨rows_eq_map_cut events, fun _ => Segment.cuts_iff, length_rows events,
    rowsFrom_filter rfl events, ?_⟩
  intro ms later
  simp only [rows_eq_map_cut, Segment.cut_append_time, List.map_append]

example : (rows [.deco .clear, .time 5, .other "gas", .time 5]).map Row.time = [5, 5] := by
  decide

end Accumulator

end DiveTable
