import DiveTable.Dump
import DiveTable.Proofs.Streaming

/-! # What is printed on the way

A computation that prints is the same without its lines: what comes of it is decided by what it is
given alone. So opening a dump and writing its table end alike whether their lines are wanted or
not. Of a table that is written the lines tell each event that is left out, the fault that ended the
stream, and the counts. -/
namespace DiveTable

namespace Trace

variable {ε δ α β : Type}

def silent (t : Trace ε α) : Trace ε α := ⟨[], t.outcome⟩

@[simp] theorem outcome_silent (t : Trace ε α) : t.silent.outcome = t.outcome := rfl

@[simp] theorem silent_ofExcept (outcome : Except ε α) :
    (ofExcept outcome).silent = ofExcept outcome := rfl

@[simp] theorem silent_pure (a : α) : (Pure.pure a : Trace ε α).silent = Pure.pure a := rfl

@[simp] theorem silent_say (lines : List String) :
    (say true lines : Trace ε Unit).silent = say false lines := rfl

theorem silent_mapError (f : ε → δ) (t : Trace ε α) :
    (t.mapError f).silent = t.silent.mapError f := rfl

theorem silent_bind (t : Trace ε α) (next : α → Trace ε β) :
    (t >>= next).silent = t.silent >>= fun a => (next a).silent := by
  show (Trace.bind t next).silent = Trace.bind t.silent fun a => (next a).silent
  unfold Trace.bind
  cases h : t.outcome with
  | error e => simp [silent, h]
  | ok a => simp [silent, h]

theorem printed_bind_ok {t : Trace ε α} {a : α} (h : t.outcome = .ok a) (next : α → Trace ε β) :
    (t >>= next).printed = t.printed ++ (next a).printed := by
  show (Trace.bind t next).printed = _
  unfold Trace.bind
  rw [h]

end Trace

/-! ## The same without lines -/

theorem Dump.read_silent (input : List UInt8) :
    Dump.read false input = (Dump.read true input).silent := by
  simp only [Dump.read, Trace.silent_bind, Trace.silent_ofExcept, Trace.silent_say,
    Trace.silent_pure]

namespace Conversion

theorem step_silent (c : Conversion) (event : Event) :
    step false c event = (step true c event).silent := by
  rw [step, step, Trace.silent_bind, Trace.silent_say]
  rfl

theorem run_silent (c : Conversion) (items : List (Except Fault Event)) :
    run false c items = (run true c items).silent := by
  induction items generalizing c with
  | nil => rfl
  | cons item rest ih =>
    cases item with
    | error fault => rfl
    | ok event =>
      rw [run, run, Trace.silent_bind, step_silent]
      exact congrArg _ (funext fun c => ih c)

end Conversion

/-- The lines have no say in the table, in the faults, or in what a sink gets. -/
theorem convertInto_silent (items : List (Except Fault Event)) (sink : Sink) :
    convertInto false items sink = (convertInto true items sink).silent := by
  simp only [convertInto, Conversion.run_silent, Trace.silent_bind, Trace.silent_ofExcept,
    Trace.silent_say, Trace.silent_pure]

theorem convert_silent (items : List (Except Fault Event)) (sink : Sink) :
    convert false items sink = (convert true items sink).silent := by
  rw [convert, convert, Trace.silent_mapError, convertInto_silent]

/-! ## The lines of a table that is written -/

namespace Conversion

def stopRemarks (eventsSeen : Nat) (fault : Option Fault) : List String :=
  (fault.map fun fault => "Sample stream stopped after " ++ eventsSeen.repr ++ " events: " ++
    fault.message).toList

theorem flatMap_remarks (events : List Event) :
    events.flatMap remarks = (events.filter Event.isOther).map fun event =>
      "Ignoring sample of kind '" ++ event.kind ++ "'" := by
  induction events with
  | nil => rfl
  | cons event rest ih =>
    rw [List.flatMap_cons, ih]
    cases event with
    | other name =>
      rw [List.filter_cons_of_pos rfl]
      rfl
    | time | reading | deco =>
      rw [List.filter_cons_of_neg Bool.false_ne_true]
      rfl

theorem printed_step (c : Conversion) (event : Event) :
    (step true c event).printed = remarks event := by
  rw [step, Trace.printed_bind_ok (Trace.outcome_say true (remarks event))]
  exact List.append_nil _

theorem writeRow_eventsSeen {c c' : Conversion} {row : Option Row} (h : c.writeRow row = .ok c') :
    c'.eventsSeen = c.eventsSeen := by
  unfold writeRow at h
  split at h
  · cases h
    rfl
  · split at h
    · cases h
    · cases h
      rfl

theorem step_eventsSeen {debug : Bool} {c c' : Conversion} {event : Event}
    (h : (step debug c event).outcome = .ok c') : c'.eventsSeen = c.eventsSeen + 1 := by
  rw [outcome_step] at h
  exact writeRow_eventsSeen h

theorem printed_run {c c' : Conversion} {fault : Option Fault} {items : List (Except Fault Event)}
    (h : (run true c items).outcome = .ok (c', fault)) :
    c'.eventsSeen = c.eventsSeen + (Items.events items).length ∧ fault = Items.fault? items ∧
      (run true c items).printed =
        (Items.events items).flatMap remarks ++ stopRemarks c'.eventsSeen fault := by
  -- on the items: a run that its sink does not stop takes in every event and remarks on it
  induction items generalizing c with
  | nil =>
    cases h
    exact ⟨rfl, rfl, rfl⟩
  | cons item rest ih =>
    cases item with
    | error stop =>
      cases h
      exact ⟨rfl, rfl, rfl⟩
    | ok event =>
      rw [run, Trace.outcome_bind] at h
      obtain ⟨c₁, stepped, later⟩ := bind_eq_ok h
      obtain ⟨seen, isFault, printed⟩ := ih later
      rw [run, Trace.printed_bind_ok stepped, printed_step, printed, seen,
        step_eventsSeen stepped]
      refine ⟨?_, isFault, ?_⟩
      · rw [Items.events, List.length_cons]
        omega
      · rw [Items.events, List.flatMap_cons, List.append_assoc]

theorem finish_eventsSeen {c : Conversion} {fault : Option Fault} {summary : Summary} {sink : Sink}
    (h : c.finish fault = .ok (summary, sink)) : summary.eventsSeen = c.eventsSeen := by
  unfold finish at h
  split at h
  · cases h
  · rename_i c₁ written
    split at h
    · cases h
    · cases h
      exact writeRow_eventsSeen written

end Conversion

theorem printed_convert {items : List (Except Fault Event)} {sink behind : Sink}
    {summary : Summary} (h : (convert true items sink).outcome = .ok (summary, behind)) :
    (convert true items sink).printed =
      ((Items.events items).filter Event.isOther).map (fun event =>
        "Ignoring sample of kind '" ++ event.kind ++ "'") ++
      ((Items.fault? items).map fun fault => "Sample stream stopped after " ++
        summary.eventsSeen.repr ++ " events: " ++ fault.message).toList ++
      ["Exported " ++ summary.rowsWritten.repr ++ " data rows from " ++ summary.eventsSeen.repr ++
        " events (" ++ summary.ignoredEvents.repr ++ " ignored)"] := by
  rw [convert, Trace.outcome_mapError] at h
  have written := mapError_eq_ok h
  rw [convertInto, Trace.outcome_bind] at written
  obtain ⟨c, started, written⟩ := bind_eq_ok written
  rw [Trace.outcome_bind] at written
  obtain ⟨⟨c', fault⟩, ran, written⟩ := bind_eq_ok written
  rw [Trace.outcome_bind] at written
  obtain ⟨⟨summary', behind'⟩, finished, same⟩ := bind_eq_ok written
  cases same
  obtain ⟨-, rfl, printed⟩ := Conversion.printed_run ran
  rw [convert, Trace.printed_mapError, convertInto, Trace.printed_bind_ok started,
    Trace.printed_bind_ok ran, Trace.printed_bind_ok finished, printed, Conversion.flatMap_remarks]
  dsimp only
  rw [Trace.printed_bind_ok (Trace.outcome_say _ _), Conversion.finish_eventsSeen finished]
  rfl

end DiveTable
