import DiveTable.Proofs.Items
import DiveTable.Trace
import DiveTable.Proofs.RowSegments
import DiveTable.Proofs.TableText

/-! # Streaming a table

A conversion under way is told by the events it has taken in: its accumulator, its counters and all
that its writer has been given follow from them, held back or not. At the first fault the stream is
over, and what a sink in memory has is the table of the events in front of it. A sink that refuses
is found out as soon as the text is more than the writer holds back, at the latest at the end. -/
namespace DiveTable

/-- A sink that fails every write for one reason, which may still take other calls. -/
def Sink.Refuses (sink : Sink) (reason : String) : Prop :=
  ∀ text, ∃ behind, sink.ask (.write text) = .error (reason, behind)

theorem Sink.refuses_refusing (reason : String) : (refusing reason).Refuses reason :=
  fun text => ⟨refusing reason, ask_refusing reason (.write text)⟩

def rowsText (rows : List Row) : String := String.join (rows.map fun row => row.line ++ "\n")

theorem tableText_append (rows later : List Row) :
    tableText (rows ++ later) = tableText rows ++ rowsText later := by
  simp [tableText, rowsText, String.append_assoc]

namespace Writer

/-- How writers take what they are given. By all the text that a writer has got, it stands as
`given` tells, or it has failed as `refused` tells; a refusal is not mended by more text. -/
structure Takes (given : Writer → String → Prop) (refused : String → Fault → Prop) : Prop where
  put : ∀ {w : Writer} {text : String}, given w text → ∀ fields,
    (∃ w', w.put fields = .ok w' ∧ given w' (text ++ Csv.recordText fields)) ∨
      ∃ fault behind, w.put fields = .error (fault, behind) ∧
        refused (text ++ Csv.recordText fields) fault
  lasts : ∀ {text : String} {fault : Fault}, refused text fault → ∀ more,
    refused (text ++ more) fault

/-! ## Memory -/

def HasWritten (w : Writer) (text : String) : Prop :=
  ∃ arrived, w.sink = .memory arrived ∧ arrived ++ w.held = text

theorem hasWritten_new (held : String) : (new (.memory held)).HasWritten held :=
  ⟨held, rfl, String.append_empty⟩

theorem push_of_hasWritten {w : Writer} {text : String} (h : w.HasWritten text) (c : Char) :
    ∃ w', w.push c = .ok w' ∧ w'.HasWritten (text.push c) := by
  obtain ⟨arrived, hsink, rfl⟩ := h
  by_cases fits : w.held.utf8ByteSize + c.utf8Size ≤ capacity
  · refine ⟨{ w with held := w.held.push c }, by simp only [push, if_pos fits], arrived, hsink, ?_⟩
    rw [← String.append_singleton, ← String.append_assoc, String.append_singleton]
  · refine ⟨⟨.memory (arrived ++ w.held), String.singleton c⟩,
      by simp only [push, if_neg fits, hsink, Sink.ask_memory, Call.text], ?_⟩
    exact ⟨_, rfl, String.append_singleton⟩

theorem pushAll_of_hasWritten {w : Writer} {text : String} (h : w.HasWritten text)
    (chars : List Char) :
    ∃ w', w.pushAll chars = .ok w' ∧ w'.HasWritten (text ++ String.ofList chars) := by
  induction chars generalizing w text with
  | nil => exact ⟨w, by rw [pushAll], by simpa using h⟩
  | cons c rest ih =>
    obtain ⟨w₁, pushed, h₁⟩ := push_of_hasWritten h c
    obtain ⟨w₂, all, h₂⟩ := ih h₁
    refine ⟨w₂, by rw [pushAll, pushed]; exact all, ?_⟩
    simpa [← String.append_singleton, String.append_assoc] using h₂

/-- Memory takes every record, now or later. -/
theorem takes_memory : Takes HasWritten fun _ _ => False where
  put := by
    intro w text h fields
    obtain ⟨w', all, hw⟩ := pushAll_of_hasWritten h (Csv.recordText fields).toList
    rw [String.ofList_toList] at hw
    exact .inl ⟨w', by rw [Writer.put, all]; rfl, hw⟩
  lasts := fun never _ => never

theorem flush_of_hasWritten {w : Writer} {text : String} (h : w.HasWritten text) :
    w.flush = .ok (.memory text) := by
  obtain ⟨arrived, hsink, rfl⟩ := h
  simp only [flush, hsink, Sink.ask_memory, Call.text, String.append_empty]
  rfl

/-! ## A sink that refuses -/

/-- A writer in front of a sink that refuses, which still holds all the text it has been given. -/
structure Awaits (reason : String) (w : Writer) (text : String) : Prop where
  refuses : w.sink.Refuses reason
  held : w.held = text
  fits : text.utf8ByteSize ≤ capacity

theorem awaits_new {sink : Sink} {reason : String} (h : sink.Refuses reason) :
    Awaits reason (new sink) "" :=
  ⟨h, rfl, Nat.zero_le _⟩

theorem push_of_awaits {reason : String} {w : Writer} {text : String} (h : Awaits reason w text)
    (c : Char) :
    (∃ w', w.push c = .ok w' ∧ Awaits reason w' (text.push c)) ∨
      ∃ behind, w.push c = .error (reason, behind) ∧ capacity < (text.push c).utf8ByteSize := by
  obtain ⟨refuses, rfl, -⟩ := h
  by_cases fits : w.held.utf8ByteSize + c.utf8Size ≤ capacity
  · refine .inl ⟨{ w with held := w.held.push c }, by simp only [push, if_pos fits], ?_⟩
    exact ⟨refuses, rfl, by rwa [String.utf8ByteSize_push]⟩
  · obtain ⟨behind, refused⟩ := refuses w.held
    refine .inr ⟨behind, by simp only [push, if_neg fits, refused], ?_⟩
    rw [String.utf8ByteSize_push]
    omega

theorem pushAll_of_awaits {reason : String} {w : Writer} {text : String}
    (h : Awaits reason w text) (chars : List Char) :
    (∃ w', w.pushAll chars = .ok w' ∧ Awaits reason w' (text ++ String.ofList chars)) ∨
      ∃ behind, w.pushAll chars = .error (reason, behind) ∧
        capacity < (text ++ String.ofList chars).utf8ByteSize := by
  -- on the text: it is all held back, or the character that does not fit is reached
  induction chars generalizing w text with
  | nil => exact .inl ⟨w, by rw [pushAll], by simpa using h⟩
  | cons c rest ih =>
    have whole : text ++ String.ofList (c :: rest) = text.push c ++ String.ofList rest := by
      simp [← String.append_singleton, String.append_assoc]
    rw [whole, pushAll]
    rcases push_of_awaits h c with ⟨w₁, pushed, h₁⟩ | ⟨behind, failed, large⟩
    · rw [pushed]
      exact ih h₁
    · refine .inr ⟨behind, by rw [failed], ?_⟩
      rw [String.utf8ByteSize_append]
      omega

/-- What is given to a sink that refuses waits in front of it, as long as it fits. -/
theorem takes_refusing (reason : String) :
    Takes (Awaits reason) fun text fault =>
      fault = .notWritten reason ∧ capacity < text.utf8ByteSize where
  put := by
    intro w text h fields
    rcases pushAll_of_awaits h (Csv.recordText fields).toList with
      ⟨w', all, h'⟩ | ⟨behind, failed, large⟩
    · rw [String.ofList_toList] at h'
      exact .inl ⟨w', by rw [Writer.put, all]; rfl, h'⟩
    · rw [String.ofList_toList] at large
      exact .inr ⟨.notWritten reason, behind, by rw [Writer.put, failed]; rfl, rfl, large⟩
  lasts := by
    rintro text fault ⟨rfl, large⟩ more
    refine ⟨rfl, ?_⟩
    rw [String.utf8ByteSize_append]
    omega

theorem flush_of_awaits {reason : String} {w : Writer} {text : String}
    (h : Awaits reason w text) : ∃ behind, w.flush = .error (.io reason, behind) := by
  obtain ⟨behind, refused⟩ := h.refuses w.held
  exact ⟨behind, by rw [flush, refused]; rfl⟩

end Writer

namespace Conversion

open Accumulator (start after closedBy)

/-- A conversion that has taken in these events, with a writer that had been given some text
before. -/
structure Follows (given : Writer → String → Prop) (held : String) (past : List Event)
    (c : Conversion) : Prop where
  written : given c.writer (held ++ tableText (closedBy .start past))
  accumulator : c.accumulator = after .start past
  rowsWritten : c.rowsWritten = (closedBy .start past).length
  eventsSeen : c.eventsSeen = past.length

section

variable {given : Writer → String → Prop} {refused : String → Fault → Prop} {held : String}

theorem start_follows (takes : Writer.Takes given refused) {sink : Sink}
    (h : given (Writer.new sink) held) :
    (∃ c, Conversion.start sink = .ok c ∧ Follows given held [] c) ∨
      ∃ fault behind, Conversion.start sink = .error (fault, behind) ∧
        refused (held ++ tableText []) fault := by
  have text : held ++ tableText [] = held ++ Csv.recordText header := by
    rw [Csv.recordText_header]
    simp [tableText]
  rcases takes.put h header with ⟨w, put, hw⟩ | ⟨fault, behind, failed, hf⟩
  · refine .inl ⟨⟨w, .start, 0, 0⟩, by rw [Conversion.start, put], ?_, rfl, rfl, rfl⟩
    rwa [← text] at hw
  · exact .inr ⟨fault, behind, by rw [Conversion.start, failed], by rwa [text]⟩

theorem writeRow_cases (takes : Writer.Takes given refused) {c : Conversion} {text : String}
    (h : given c.writer text) (row : Option Row) :
    (∃ w, c.writeRow row =
        .ok { c with writer := w, rowsWritten := c.rowsWritten + row.toList.length } ∧
      given w (text ++ rowsText row.toList)) ∨
    ∃ fault behind, c.writeRow row = .error (fault, behind) ∧
      refused (text ++ rowsText row.toList) fault := by
  cases row with
  | none => exact .inl ⟨c.writer, rfl, by simpa [rowsText] using h⟩
  | some row =>
    have same : rowsText (some row).toList = Csv.recordText row.fields := by
      rw [Csv.recordText_fields]
      simp [rowsText]
    rw [same]
    rcases takes.put h row.fields with ⟨w, put, hw⟩ | ⟨fault, behind, failed, hf⟩
    · exact .inl ⟨w, by simp [writeRow, put], hw⟩
    · exact .inr ⟨fault, behind, by simp [writeRow, failed], hf⟩

theorem outcome_step (debug : Bool) (c : Conversion) (event : Event) :
    (step debug c event).outcome = writeRow { c with
      accumulator := (c.accumulator.feed event).2
      eventsSeen := c.eventsSeen + 1 } (c.accumulator.feed event).1 := by
  rw [step, Trace.outcome_bind, Trace.outcome_say]
  generalize c.accumulator.feed event = fed
  rfl

theorem step_follows (takes : Writer.Takes given refused) {past : List Event} {c : Conversion}
    (h : Follows given held past c) (debug : Bool) (event : Event) :
    (∃ c', (step debug c event).outcome = .ok c' ∧ Follows given held (past ++ [event]) c') ∨
      ∃ fault behind, (step debug c event).outcome = .error (fault, behind) ∧
        refused (held ++ tableText (closedBy .start (past ++ [event]))) fault := by
  have text : held ++ tableText (closedBy .start (past ++ [event])) =
      held ++ tableText (closedBy .start past) ++
        rowsText (c.accumulator.feed event).1.toList := by
    simp [Accumulator.closedBy_append, tableText_append, h.accumulator, String.append_assoc]
  rcases writeRow_cases takes (c := { c with
      accumulator := (c.accumulator.feed event).2
      eventsSeen := c.eventsSeen + 1 }) h.written (c.accumulator.feed event).1 with
    ⟨w, written, hw⟩ | ⟨fault, behind, failed, hf⟩
  · refine .inl ⟨_, (outcome_step debug c event).trans written, ?_, ?_, ?_, ?_⟩
    · rw [text]
      exact hw
    · simp [Accumulator.after_append, h.accumulator]
    · simp [Accumulator.closedBy_append, h.accumulator, h.rowsWritten]
    · simp [h.eventsSeen]
  · exact .inr ⟨fault, behind, (outcome_step debug c event).trans failed, text ▸ hf⟩

/-- A refusal in the middle of a table is one of the whole table. -/
theorem refused_rows (takes : Writer.Takes given refused) {past : List Event} {fault : Fault}
    (h : refused (held ++ tableText (closedBy .start past)) fault) (later : List Event) :
    refused (held ++ tableText (Accumulator.rows (past ++ later))) fault := by
  rw [Accumulator.rows, Accumulator.rowsFrom_append, tableText_append, ← String.append_assoc]
  exact takes.lasts h _

theorem run_follows (takes : Writer.Takes given refused) {past : List Event} {c : Conversion}
    (h : Follows given held past c) (debug : Bool) (items : List (Except Fault Event)) :
    (∃ c', (run debug c items).outcome = .ok (c', Items.fault? items) ∧
      Follows given held (past ++ Items.events items) c') ∨
    ∃ fault behind, (run debug c items).outcome = .error (fault, behind) ∧
      refused (held ++ tableText (Accumulator.rows (past ++ Items.events items))) fault := by
  induction items generalizing past c with
  | nil => exact .inl ⟨c, rfl, by simpa [Items.events] using h⟩
  | cons item rest ih =>
    cases item with
    | error fault => exact .inl ⟨c, rfl, by simpa [Items.events] using h⟩
    | ok event =>
      have onwards : past ++ Items.events (.ok event :: rest) =
          past ++ [event] ++ Items.events rest := by
        simp [Items.events]
      rw [onwards, run]
      rcases step_follows takes h debug event with
        ⟨c₁, stepped, h₁⟩ | ⟨fault, behind, failed, hf⟩
      · rw [Trace.outcome_bind_ok stepped]
        exact ih h₁
      · refine .inr ⟨fault, behind, ?_, refused_rows takes hf _⟩
        rw [Trace.outcome_bind, failed]
        rfl

/-- The row left open is written like the others, after a fault as well. -/
theorem finish_of_follows (takes : Writer.Takes given refused) {past : List Event}
    {c : Conversion} (h : Follows given held past c) (fault : Option Fault) :
    (∃ w, given w (held ++ tableText (Accumulator.rows past)) ∧
      c.finish fault = w.flush.map fun sink =>
        (⟨(Accumulator.rows past).length, past.length, past.countP Event.isOther, fault⟩, sink)) ∨
    ∃ refusal behind, c.finish fault = .error (refusal, behind) ∧
      refused (held ++ tableText (Accumulator.rows past)) refusal := by
  have rows : Accumulator.rows past =
      closedBy .start past ++ c.accumulator.finish.toList := by
    rw [h.accumulator]
    exact Accumulator.rowsFrom_eq_closedBy .start past
  have ignored : c.accumulator.ignoredEvents = past.countP Event.isOther := by
    rw [h.accumulator, Accumulator.ignoredEvents_after]
    exact Nat.zero_add _
  have text : held ++ tableText (Accumulator.rows past) =
      held ++ tableText (closedBy .start past) ++ rowsText c.accumulator.finish.toList := by
    rw [rows, tableText_append, String.append_assoc]
  rw [text]
  rcases writeRow_cases takes h.written c.accumulator.finish with
    ⟨w, written, hw⟩ | ⟨refusal, behind, failed, hf⟩
  · refine .inl ⟨w, hw, ?_⟩
    simp only [finish, written, ignored, h.rowsWritten, h.eventsSeen, rows, List.length_append]
    cases w.flush <;> rfl
  · exact .inr ⟨refusal, behind, by rw [finish, failed], hf⟩

end

theorem run_untilFault (debug : Bool) (c : Conversion) (items : List (Except Fault Event)) :
    run debug c (Items.untilFault items) = run debug c items := by
  induction items generalizing c with
  | nil => rfl
  | cons item rest ih =>
    cases item with
    | error fault => rfl
    | ok event =>
      rw [Items.untilFault_ok, run, run]
      exact congrArg _ (funext fun c => ih c)

end Conversion

def Summary.ofItems (items : List (Except Fault Event)) : Summary where
  rowsWritten := (Accumulator.rows (Items.events items)).length
  eventsSeen := (Items.events items).length
  ignoredEvents := (Items.events items).countP Event.isOther
  fault := Items.fault? items

/-- A conversion ends as its writer takes the table of all the events, whatever the writer is. -/
theorem convertInto_cases {given : Writer → String → Prop} {refused : String → Fault → Prop}
    (takes : Writer.Takes given refused) {sink : Sink} {held : String}
    (h : given (Writer.new sink) held) (debug : Bool) (items : List (Except Fault Event)) :
    (∃ w, given w (held ++ tableText (Accumulator.rows (Items.events items))) ∧
      (convertInto debug items sink).outcome = w.flush.map (Summary.ofItems items, ·)) ∨
    ∃ fault behind, (convertInto debug items sink).outcome = .error (fault, behind) ∧
      refused (held ++ tableText (Accumulator.rows (Items.events items))) fault := by
  rcases Conversion.start_follows takes h with
    ⟨c₀, started, h₀⟩ | ⟨fault, behind, failed, hf⟩
  · rw [convertInto, Trace.outcome_bind_ok ((Trace.outcome_ofExcept _).trans started)]
    rcases Conversion.run_follows takes h₀ debug items with
      ⟨c, ran, h₁⟩ | ⟨fault, behind, failed, hf⟩
    · rw [Trace.outcome_bind_ok ran]
      rcases Conversion.finish_of_follows takes h₁ (Items.fault? items) with
        ⟨w, hw, finished⟩ | ⟨fault, behind, failed, hf⟩
      · refine .inl ⟨w, hw, ?_⟩
        rw [Trace.outcome_bind, Trace.outcome_ofExcept, finished]
        cases w.flush <;> rfl
      · refine .inr ⟨fault, behind, ?_, hf⟩
        rw [Trace.outcome_bind, Trace.outcome_ofExcept, failed]
        rfl
    · refine .inr ⟨fault, behind, ?_, hf⟩
      rw [Trace.outcome_bind, failed]
      rfl
  · have whole := fun later => Conversion.refused_rows takes (show refused
      (held ++ tableText (Accumulator.closedBy .start [])) fault from hf) later
    refine .inr ⟨fault, behind, ?_, whole (Items.events items)⟩
    rw [convertInto, Trace.outcome_bind, Trace.outcome_ofExcept, failed]
    rfl

theorem outcome_convert {debug : Bool} {items : List (Except Fault Event)} {sink : Sink}
    {outcome : Except (Fault × Sink) (Summary × Sink)}
    (h : (convertInto debug items sink).outcome = outcome) :
    (convert debug items sink).outcome = outcome.mapError Prod.fst := by
  rw [convert, Trace.outcome_mapError, h]

theorem convert_memory (debug : Bool) (items : List (Except Fault Event)) (held : String) :
    (convert debug items (.memory held)).outcome = .ok
      ({ rowsWritten := (Accumulator.rows (Items.events items)).length
         eventsSeen := (Items.events items).length
         ignoredEvents := (Items.events items).countP Event.isOther
         fault := Items.fault? items },
        .memory (held ++ tableText (Accumulator.rows (Items.events items)))) := by
  rcases convertInto_cases Writer.takes_memory (Writer.hasWritten_new held) debug items with
    ⟨w, written, outcome⟩ | ⟨fault, behind, -, never⟩
  · rw [outcome_convert outcome, Writer.flush_of_hasWritten written]
    rfl
  · cases never

/-- The fault of a table that its sink refuses. Once the buffer is full it is one of a record, and
one of the last hand-over if the buffer holds the whole table. -/
def refusal (reason text : String) : Fault :=
  if Writer.capacity < text.utf8ByteSize then .notWritten reason else .io reason

theorem refusal_of_large {text : String} (h : Writer.capacity < text.utf8ByteSize)
    (reason : String) : refusal reason text = .notWritten reason := if_pos h

theorem refusal_of_fits {text : String} (h : text.utf8ByteSize ≤ Writer.capacity)
    (reason : String) : refusal reason text = .io reason := if_neg (Nat.not_lt.2 h)

theorem convert_of_refuses {sink : Sink} {reason : String} (h : sink.Refuses reason) (debug : Bool)
    (items : List (Except Fault Event)) :
    (convert debug items sink).outcome =
      .error (refusal reason (tableText (Accumulator.rows (Items.events items)))) := by
  rcases convertInto_cases (Writer.takes_refusing reason) (Writer.awaits_new h) debug items with
    ⟨w, awaits, outcome⟩ | ⟨fault, behind, outcome, rfl, large⟩
  · rw [String.empty_append] at awaits
    obtain ⟨behind, failed⟩ := Writer.flush_of_awaits awaits
    rw [outcome_convert outcome, failed, refusal_of_fits awaits.fits]
    rfl
  · rw [String.empty_append] at large
    rw [outcome_convert outcome, refusal_of_large large]
    rfl

theorem convert_untilFault (debug : Bool) (items : List (Except Fault Event)) (sink : Sink) :
    convert debug (Items.untilFault items) sink = convert debug items sink := by
  simp only [convert, convertInto, Conversion.run_untilFault]

/-- Row by row or all at once, the same table is written, and what comes after a fault is never
looked at. -/
theorem convert_eq_tableText (debug : Bool) (items : List (Except Fault Event)) (held : String) :
    (convert debug items (.memory held)).outcome = .ok
      ({ rowsWritten := (Accumulator.rows (Items.events items)).length
         eventsSeen := (Items.events items).length
         ignoredEvents := (Items.events items).countP Event.isOther
         fault := Items.fault? items },
        .memory (held ++ tableText (Accumulator.rows (Items.events items)))) ∧
    ∀ sink, convert debug (Items.untilFault items) sink = convert debug items sink :=
  ⟨convert_memory debug items held, convert_untilFault debug items⟩

end DiveTable
