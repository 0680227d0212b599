import DiveTable.Proofs.Delivery
import DiveTable.Proofs.FieldValues
import DiveTable.Proofs.FormatAgreement
import DiveTable.Proofs.Streaming

/-! # From the bytes of a dump to its table

The samples in front of the first fault decode to the events that are delivered, and the table is
that of these events. So counters, lines and times of the table are told by the samples alone. -/
namespace DiveTable

open Json

theorem Quantity.not_mem_of_ofName_none {name : String} (h : ofName? name = none) :
    name ∉ all.map Quantity.name := by
  intro mem
  obtain ⟨q, hq, rfl⟩ := List.mem_map.1 mem
  simp at h

def Fault.sample? : Fault → Option Nat
  | .invalidSample index _ => some index
  | .timeOrder index _ _ => some index
  | _ => none

namespace Sample

def consumedKinds : List String := "time" :: "deco" :: Quantity.all.map Quantity.name

def kindOf? (raw : Value) : Option String := (ofValue raw).toOption.map Sample.kind

def isTime (raw : Value) : Bool := kindOf? raw == some "time"

def isUnconsumed (raw : Value) : Bool := (kindOf? raw).any fun kind => !consumedKinds.contains kind

def time? (raw : Value) : Option UInt32 := (eventOfValue raw).toOption.bind Event.time?

/-- A sample that does not decode, or is below the time sample before it. -/
def Faulty (before : List Value) (raw : Value) : Prop :=
  (∃ reason, eventOfValue raw = .error reason) ∨
  ∃ previous current, (before.filterMap time?).getLast? = some previous ∧
    time? raw = some current ∧ current < previous

structure FirstFault (samples : List Value) (k : Nat) : Prop where
  within : k ≤ samples.length
  sound : ∀ i raw, i < k → samples[i]? = some raw → ¬Faulty (samples.take i) raw
  faulty : ∀ raw, samples[k]? = some raw → Faulty (samples.take k) raw

theorem FirstFault.unique {samples : List Value} {k k' : Nat} (h : FirstFault samples k)
    (h' : FirstFault samples k') : k = k' := by
  have least {a b : Nat} (first : FirstFault samples a) (other : FirstFault samples b) : a ≤ b := by
    apply Nat.le_of_not_lt
    intro before
    have inside : b < samples.length := Nat.lt_of_lt_of_le before first.within
    have found := List.getElem?_eq_getElem inside
    exact first.sound b samples[b] before found (other.faulty samples[b] found)
  exact Nat.le_antisymm (least h h') (least h' h)

theorem name_mem_consumedKinds (q : Quantity) : q.name ∈ consumedKinds := by
  cases q <;> decide

theorem name_ne_time (q : Quantity) : q.name ≠ "time" := by
  cases q <;> decide

theorem kindOf_of_ofValue {raw : Value} {sample : Sample} (h : ofValue raw = .ok sample) :
    kindOf? raw = some sample.kind := by
  rw [kindOf?, h]
  rfl

theorem kind_of_eventOfValue {raw : Value} {event : Event} (h : eventOfValue raw = .ok event) :
    kindOf? raw = some event.kind := by
  obtain ⟨sample, shaped, decoded⟩ := eventOfValue_eq_ok h
  rw [kindOf_of_ofValue shaped, kind_of_event decoded]

theorem kind_of_decoded {raw : Value} {event : Event} (h : eventOfValue raw = .ok event) :
    isTime raw = event.isTime ∧ isUnconsumed raw = event.isOther := by
  obtain ⟨sample, shaped, decoded⟩ := eventOfValue_eq_ok h
  rw [isTime, isUnconsumed, kindOf_of_ofValue shaped]
  rcases event_cases decoded with
    ⟨kind, ms, rfl⟩ | ⟨kind, deco, status, -, rfl⟩ | ⟨q, n, kind, -, rfl⟩ |
    ⟨notTime, notDeco, unknown, rfl⟩
  · rw [kind, Event.isTime_time, Event.isOther_time]
    decide
  · rw [kind, Event.isTime_deco, Event.isOther_deco]
    decide
  · rw [kind]
    simp [name_ne_time, name_mem_consumedKinds]
  · have other : sample.kind ∉ consumedKinds := by
      simp only [consumedKinds, List.mem_cons, not_or]
      exact ⟨notTime, notDeco, Quantity.not_mem_of_ofName_none unknown⟩
    simp [notTime, other]

def Decodes (samples : List Value) (events : List Event) : Prop :=
  samples.map eventOfValue = events.map .ok

theorem decodes_append {samples : List Value} {events : List Event} (h : Decodes samples events)
    {raw : Value} {event : Event} (decoded : eventOfValue raw = .ok event) :
    Decodes (samples ++ [raw]) (events ++ [event]) := by
  rw [Decodes, List.map_append, List.map_append, h, List.map_singleton, List.map_singleton, decoded]

theorem Decodes.length_eq {samples : List Value} {events : List Event}
    (h : Decodes samples events) : samples.length = events.length := by
  simpa using congrArg List.length h

theorem decodes_nil {events : List Event} : Decodes [] events ↔ events = [] := by
  rw [Decodes, List.map_nil, eq_comm, List.map_eq_nil_iff]

theorem decodes_cons {raw : Value} {samples : List Value} {events : List Event} :
    Decodes (raw :: samples) events ↔
      ∃ event rest, events = event :: rest ∧ eventOfValue raw = .ok event ∧
        Decodes samples rest := by
  rw [Decodes, List.map_cons, eq_comm, List.map_eq_cons_iff]
  constructor
  · rintro ⟨event, rest, rfl, decoded, h⟩
    exact ⟨event, rest, rfl, decoded.symm, h.symm⟩
  · rintro ⟨event, rest, rfl, decoded, h⟩
    exact ⟨event, rest, rfl, decoded.symm, h.symm⟩

theorem Decodes.countP_eq {q : Value → Bool} {p : Event → Bool}
    (agree : ∀ raw event, eventOfValue raw = .ok event → q raw = p event)
    {samples : List Value} {events : List Event} (h : Decodes samples events) :
    samples.countP q = events.countP p := by
  induction samples generalizing events with
  | nil =>
    rw [decodes_nil.1 h]
    rfl
  | cons raw samples ih =>
    obtain ⟨event, rest, rfl, decoded, h⟩ := decodes_cons.1 h
    rw [List.countP_cons, List.countP_cons, ih h, agree raw event decoded]

theorem time_of_decoded {raw : Value} {event : Event} (h : eventOfValue raw = .ok event) :
    time? raw = event.time? := by
  rw [time?, h]
  rfl

theorem Decodes.filterMap_time {samples : List Value} {events : List Event}
    (h : Decodes samples events) : samples.filterMap time? = events.filterMap Event.time? := by
  induction samples generalizing events with
  | nil =>
    rw [decodes_nil.1 h]
    rfl
  | cons raw samples ih =>
    obtain ⟨event, rest, rfl, decoded, h⟩ := decodes_cons.1 h
    rw [List.filterMap_cons, List.filterMap_cons, time_of_decoded decoded, ih h]

namespace Decodes

variable {samples : List Value} {events : List Event}

theorem getElem (h : Decodes samples events) {i : Nat} {raw : Value}
    (mem : samples[i]? = some raw) :
    ∃ event, events[i]? = some event ∧ eventOfValue raw = .ok event := by
  have same : (samples.map eventOfValue)[i]? = (events.map .ok)[i]? := congrArg (·[i]?) h
  rw [List.getElem?_map, List.getElem?_map, mem] at same
  obtain ⟨event, found, decoded⟩ := Option.map_eq_some_iff.1 same.symm
  exact ⟨event, found, decoded.symm⟩

theorem of_mem (h : Decodes samples events) {event : Event} (mem : event ∈ events) :
    ∃ raw ∈ samples, eventOfValue raw = .ok event := by
  have inside : (.ok event : Except Reason Event) ∈ events.map .ok := List.mem_map_of_mem mem
  rw [← h] at inside
  exact List.mem_map.1 inside

theorem drop (h : Decodes samples events) (n : Nat) :
    Decodes (samples.drop n) (events.drop n) := by
  rw [Decodes, List.map_drop, List.map_drop, h]

theorem timeless (h : Decodes samples events) :
    Decodes (samples.takeWhile fun raw => !isTime raw) (events.takeWhile fun e => !e.isTime) := by
  induction samples generalizing events with
  | nil =>
    rw [decodes_nil.1 h]
    rfl
  | cons raw samples ih =>
    obtain ⟨event, rest, rfl, decoded, h⟩ := decodes_cons.1 h
    have same := (kind_of_decoded decoded).1
    rw [List.takeWhile_cons, List.takeWhile_cons, same]
    cases event.isTime with
    | true => rfl
    | false => exact decodes_cons.2 ⟨event, _, rfl, decoded, ih h⟩

end Decodes

/-- Behind samples that all decode, a sample is delivered unless it is faulty. -/
theorem verdict_of_decodes {before : List Value} {delivered : List Event}
    (h : Decodes before delivered) (raw : Value) :
    (∃ event, Cursor.verdict delivered raw = .ok event ∧ eventOfValue raw = .ok event ∧
      ¬Faulty before raw) ∨
    (∃ fault, Cursor.verdict delivered raw = .error fault ∧ Faulty before raw ∧
      fault.sample? = some before.length) := by
  have last : (before.filterMap time?).getLast? = Cursor.lastTime? delivered := by
    rw [h.filterMap_time]
    rfl
  rcases Cursor.verdict_cases delivered raw with
    ⟨event, decoded, forward, hv⟩ | ⟨fault, decoded, hv⟩ |
    ⟨previous, current, decoded, hlast, back, hv⟩
  · rw [decode_eq_ok] at decoded
    refine .inl ⟨event, hv, decoded, ?_⟩
    rintro (⟨reason, undecodable⟩ | ⟨previous, current, hlast, htime, back⟩)
    · rw [decoded] at undecodable
      cases undecodable
    · rw [time_of_decoded decoded] at htime
      exact forward ⟨previous, current, last ▸ hlast, Event.time?_eq_some.1 htime, back⟩
  · obtain ⟨reason, undecodable, rfl⟩ := decode_eq_error.1 decoded
    exact .inr ⟨_, hv, .inl ⟨reason, undecodable⟩, by rw [Fault.sample?, h.length_eq]⟩
  · rw [decode_eq_ok] at decoded
    exact .inr ⟨_, hv,
      .inr ⟨previous, current, last.trans hlast, time_of_decoded decoded, back⟩,
      by rw [Fault.sample?, h.length_eq]⟩

end Sample

namespace Cursor

open Sample (Decodes FirstFault)

theorem getElem_items (samples : List Value) {i : Nat}
    (hi : i ≤ (Items.events (items samples)).length) :
    (items samples)[i]? = samples[i]?.map (verdict ((Items.events (items samples)).take i)) := by
  have reached : Items.Reached (items samples) i :=
    fun j hj => Items.reached_length_events (items samples) j (by omega)
  rw [(delivered_iff.2 rfl).getElem_of_reached reached, Items.events_take]

/-- As far as events are delivered, they are what the samples decode to. -/
theorem decodes_take (samples : List Value) {i : Nat}
    (hi : i ≤ (Items.events (items samples)).length) :
    Decodes (samples.take i) ((Items.events (items samples)).take i) := by
  -- The verdict on a sample needs the events in front of it decoded, which is the hypothesis.
  induction i with
  | zero => rfl
  | succ i ih =>
    have before := ih (by omega)
    have inside : i < (Items.events (items samples)).length := by omega
    have hevent := List.getElem?_eq_getElem inside
    have item := getElem_items samples (show i ≤ _ by omega)
    rw [Items.getElem_events hevent] at item
    obtain ⟨raw, hraw, delivers⟩ := Option.map_eq_some_iff.1 item.symm
    rcases Sample.verdict_of_decodes before raw with ⟨event, hv, decoded, -⟩ | ⟨fault, hv, -⟩
    · obtain rfl := Except.ok.inj (hv.symm.trans delivers)
      rw [List.take_add_one, List.take_add_one, hraw, hevent]
      exact Sample.decodes_append before decoded
    · rw [hv] at delivers
      cases delivers

/-- Only events are in front of an item. -/
theorem reached_of_item {samples : List Value} {i : Nat} {item : Except Fault Event}
    (h : (items samples)[i]? = some item) : Items.Reached (items samples) i := by
  intro j before
  have inside : i < (items samples).length := (List.getElem?_eq_some_iff.1 h).1
  exact (delivered_iff.2 rfl).only_last j (by omega)

/-- The items up to a place depend on the samples up to that place. -/
theorem reached_of_same_front {before rest rest' : List Value}
    (h : Items.Reached (items (before ++ rest)) before.length) :
    Items.Reached (items (before ++ rest')) before.length := by
  rw [← Items.reached_take, ← items_take, List.take_left] at h ⊢
  exact h

/-- Behind events alone, an item is the verdict on its sample. -/
theorem item_of_reached {samples : List Value} {i : Nat} {raw : Value}
    (mem : samples[i]? = some raw) (reached : Items.Reached (items samples) i) :
    ∃ delivered, Decodes (samples.take i) delivered ∧ delivered.length = i ∧
      (items samples)[i]? = some (verdict delivered raw) := by
  have count := Items.length_events_take reached
  rw [Items.events_take] at count
  have within : i ≤ (Items.events (items samples)).length := by
    rw [← count]
    exact List.length_take_le' ..
  refine ⟨_, decodes_take samples within, count, ?_⟩
  rw [getElem_items samples within, mem]
  rfl

/-- An event is what its sample is decoded to. -/
theorem decoded_of_item {samples : List Value} {i : Nat} {raw : Value} {event : Event}
    (mem : samples[i]? = some raw) (isItem : (items samples)[i]? = some (.ok event)) :
    Sample.eventOfValue raw = .ok event := by
  obtain ⟨delivered, decodes, -, verdict⟩ := item_of_reached mem (reached_of_item isItem)
  rw [isItem] at verdict
  rcases Sample.verdict_of_decodes decodes raw with ⟨_, hv, decoded, -⟩ | ⟨fault, hv, -⟩
  · rw [hv] at verdict
    cases verdict
    exact decoded
  · rw [hv] at verdict
    cases verdict

/-- With no time in front of it, a sample is delivered as it is decoded. -/
theorem verdict_eq_decode {delivered : List Event} {raw : Value}
    (h : ∀ ms, Sample.eventOfValue raw = .ok (.time ms) → lastTime? delivered = none) :
    verdict delivered raw = Sample.decode delivered.length raw := by
  rcases verdict_cases delivered raw with
    ⟨event, decoded, -, hv⟩ | ⟨fault, decoded, hv⟩ | ⟨previous, current, decoded, last, -, -⟩
  · rw [hv, decoded]
  · rw [hv, decoded]
  · rw [h current (Sample.decode_eq_ok.1 decoded)] at last
    cases last

theorem length_events_le (samples : List Value) :
    (Items.events (items samples)).length ≤ samples.length := by
  have lengths := (decodes_take samples (Nat.le_refl _)).length_eq
  rw [List.length_take, List.take_length] at lengths
  omega

/-- The delivery ends with the samples or at a faulty one, which its fault names. -/
theorem end_or_fault (samples : List Value) :
    ((Items.events (items samples)).length = samples.length ∧
      Items.fault? (items samples) = none) ∨
    ∃ raw fault, samples[(Items.events (items samples)).length]? = some raw ∧
      Sample.Faulty (samples.take (Items.events (items samples)).length) raw ∧
      Items.fault? (items samples) = some fault ∧
      fault.sample? = some (Items.events (items samples)).length := by
  have within := length_events_le samples
  have item := getElem_items samples (Nat.le_refl _)
  rw [Items.getElem_length_events, List.take_length] at item
  cases hraw : samples[(Items.events (items samples)).length]? with
  | none =>
    have past := List.getElem?_eq_none_iff.1 hraw
    left
    exact ⟨by omega, by simpa [hraw] using item⟩
  | some raw =>
    have before := decodes_take samples (Nat.le_refl _)
    rw [List.take_length] at before
    rcases Sample.verdict_of_decodes before raw with ⟨event, hv, -⟩ | ⟨fault, hv, faulty, place⟩
    · simp [hraw, hv] at item
    · right
      refine ⟨raw, fault, rfl, faulty, by simpa [hraw, hv] using item, ?_⟩
      rw [place, List.length_take, Nat.min_eq_left within]

theorem firstFault_events (samples : List Value) :
    FirstFault samples (Items.events (items samples)).length := by
  refine ⟨length_events_le samples, ?_, ?_⟩
  · intro i raw hi hraw
    have item := getElem_items samples (show i ≤ _ by omega)
    rw [Items.getElem_events (List.getElem?_eq_getElem hi), hraw] at item
    rcases Sample.verdict_of_decodes (decodes_take samples (show i ≤ _ by omega)) raw
      with ⟨event, -, -, sound⟩ | ⟨fault, hv, -⟩
    · exact sound
    · simp [hv] at item
  · intro raw hraw
    rcases end_or_fault samples with ⟨atEnd, -⟩ | ⟨faultyRaw, fault, hfaulty, faulty, -⟩
    · rw [atEnd, List.getElem?_eq_none (Nat.le_refl _)] at hraw
      cases hraw
    · rw [hfaulty] at hraw
      obtain rfl := Option.some.inj hraw
      exact faulty

end Cursor

/-- The text of a table, by its lines, and its summary, told by the samples in front of a place. -/
structure Tabulates (samples : List Value) (k : Nat) (summary : Summary) (text : String)
    (lines : List (List Char)) : Prop where
  eventsSeen : summary.eventsSeen = k
  rowsWritten : summary.rowsWritten = (samples.take k).countP Sample.isTime
  ignoredEvents : summary.ignoredEvents = (samples.take k).countP Sample.isUnconsumed
  whole : summary.fault = none ↔ k = samples.length
  faultPlace : ∀ fault, summary.fault = some fault → fault.sample? = some k
  ended : splitAt '\n' text.toList = lines ++ [[]]
  count : lines.length = 1 + summary.rowsWritten
  first : lines.head? = some (",".intercalate header).toList
  fields : ∀ line ∈ lines, (splitAt ',' line).length = 9 ∧ '"' ∉ line ∧ '\r' ∉ line
  seconds : (lines.tail.map fun line => (splitAt ',' line).head?) =
    ((samples.take k).filterMap Sample.time?).map fun ms => some (ms.toNat / 1000).repr.toList
  forward : (((samples.take k).filterMap Sample.time?).map fun ms => ms.toNat / 1000).Pairwise
    (· ≤ ·)

theorem fields_of_line {rows : List Row} {line : List Char}
    (h : line ∈ (tableLines rows).map String.toList) :
    (splitAt ',' line).length = 9 ∧ '"' ∉ line ∧ '\r' ∉ line := by
  obtain ⟨text, htext, rfl⟩ := List.mem_map.1 h
  obtain ⟨fields, rfl, length, plain⟩ := line_cases htext
  have nonempty : fields ≠ [] := by
    rintro rfl
    cases length
  refine ⟨?_, Csv.not_mem_intercalate plain rfl (by decide),
    Csv.not_mem_intercalate plain rfl (by decide)⟩
  rw [Csv.splitAt_intercalate_plain nonempty plain, List.length_map, length]
  rfl

theorem head_splitAt_line (row : Row) :
    (splitAt ',' row.line.toList).head? = some row.seconds.repr.toList := by
  rw [Row.line, Csv.splitAt_intercalate_plain (by simp [Row.fields]) Csv.isPlain_of_mem_fields]
  rfl

theorem seconds_mono {a b : UInt32} (h : a ≤ b) : a.toNat / 1000 ≤ b.toNat / 1000 :=
  Nat.div_le_div_right (UInt32.le_iff_toNat_le.1 h)

theorem seconds_of_rows (events : List Event) :
    ((tableLines (Accumulator.rows events)).map String.toList).tail.map
        (fun line => (splitAt ',' line).head?) =
      (events.filterMap Event.time?).map fun ms => some (ms.toNat / 1000).repr.toList := by
  rw [← Accumulator.map_time_rows]
  simp [tableLines, head_splitAt_line, Row.seconds, wholeSeconds]

theorem tabulates_items (samples : List Value) :
    Tabulates samples (Items.events (Cursor.items samples)).length
      { rowsWritten := (Accumulator.rows (Items.events (Cursor.items samples))).length
        eventsSeen := (Items.events (Cursor.items samples)).length
        ignoredEvents := (Items.events (Cursor.items samples)).countP Event.isOther
        fault := Items.fault? (Cursor.items samples) }
      (tableText (Accumulator.rows (Items.events (Cursor.items samples))))
      ((tableLines (Accumulator.rows (Items.events (Cursor.items samples)))).map
        String.toList) := by
  have decoded := Cursor.decodes_take samples (Nat.le_refl _)
  rw [List.take_length] at decoded
  have rows : (Accumulator.rows (Items.events (Cursor.items samples))).length =
      (samples.take (Items.events (Cursor.items samples)).length).countP Sample.isTime := by
    rw [Accumulator.length_rows]
    exact (decoded.countP_eq fun _ _ h => (Sample.kind_of_decoded h).1).symm
  constructor
  case eventsSeen => rfl
  case rowsWritten => exact rows
  case ignoredEvents =>
    exact (decoded.countP_eq fun _ _ h => (Sample.kind_of_decoded h).2).symm
  case whole =>
    rcases Cursor.end_or_fault samples with ⟨atEnd, none⟩ | ⟨raw, fault, hraw, -, some, -⟩
    · simp [atEnd, none]
    · have inside := (List.getElem?_eq_some_iff.1 hraw).1
      simp only [some, reduceCtorEq, false_iff]
      omega
  case faultPlace =>
    intro fault hfault
    rcases Cursor.end_or_fault samples with ⟨-, none⟩ | ⟨raw, first, -, -, some, place⟩
    · rw [none] at hfault
      cases hfault
    · rw [some] at hfault
      obtain rfl := Option.some.inj hfault
      exact place
  case ended => exact splitAt_tableText _
  case count => simp [tableLines, Nat.add_comm]
  case first => rfl
  case fields => exact fun line hline => fields_of_line hline
  case seconds =>
    rw [decoded.filterMap_time]
    exact seconds_of_rows _
  case forward =>
    rw [decoded.filterMap_time, List.pairwise_map]
    exact (Cursor.inOrder_items samples).imp seconds_mono

theorem Dump.parse_of_read {debug : Bool} {input : List UInt8} {dump : Dump}
    (h : (Dump.read debug input).outcome = .ok dump) : Dump.parse input = .ok dump := by
  rw [Dump.outcome_read] at h
  obtain ⟨-, -, parsed⟩ := bind_eq_ok h
  exact parsed

/-- Every accepted dump has its samples as they are written and gives a table. Up to the first
faulty sample the samples tell what stands in it: one line for each time, in order, and no more. -/
theorem table_of_dump (debug : Bool) (input : List UInt8) (dump : Dump)
    (accepted : (Dump.read debug input).outcome = .ok dump) :
    (∃ expr, Spelled expr input) ∧
      (∀ expr, Spelled expr input → Document.SamplesIn expr dump.samples) ∧
      ∃ k summary text lines, Sample.FirstFault dump.samples k ∧
        (Dump.read debug input >>= fun dump => convert debug dump.items .empty).outcome =
          .ok (summary, .memory text) ∧
        Tabulates dump.samples k summary text lines := by
  have parsed := Dump.parse_of_read accepted
  have converted := convert_memory debug dump.items ""
  rw [String.empty_append] at converted
  refine ⟨?_, fun expr spelled => Dump.samplesIn_of_parse spelled parsed, _, _, _, _,
    Cursor.firstFault_events dump.samples, (Trace.outcome_bind_ok accepted _).trans converted,
    tabulates_items dump.samples⟩
  obtain ⟨document, read, -⟩ := Dump.document_of_parse parsed
  exact Document.spelled_of_parse read

/-- Two samples of one time with one between them that no table shows, then a step back in time. -/
def smallDump : List UInt8 :=
  ("\x7b\"format_version\":\"1.0.0\",\"vendor\":\"Divesoft\",\"product\":\"Freedom\"," ++
    "\"samples\":[[\"depth\",9],[\"time\",1500],[\"gas\"],[\"time\",1500],[\"time\",900]," ++
    "[\"time\",2000]]\x7d").toUTF8.toList

theorem table_of_smallDump :
    ∃ dump, (Dump.read false smallDump).outcome = .ok dump ∧ dump.samples.length = 6 ∧
      (∃ expr, Spelled expr smallDump ∧ Document.SamplesIn expr dump.samples) ∧
      ∃ k summary text lines, Sample.FirstFault dump.samples k ∧
        (Dump.read false smallDump >>= fun dump => convert false dump.items .empty).outcome =
          .ok (summary, .memory text) ∧
        Tabulates dump.samples k summary text lines := by
  have read : (Dump.read false smallDump).outcome.toOption.map (·.samples.length) = some 6 := by
    decide +kernel
  cases accepted : (Dump.read false smallDump).outcome with
  | error fault =>
    rw [accepted] at read
    cases read
  | ok dump =>
    rw [accepted] at read
    obtain ⟨⟨expr, spelled⟩, stand, table⟩ := table_of_dump false smallDump dump accepted
    exact ⟨dump, rfl, Option.some.inj read, ⟨expr, spelled, stand expr spelled⟩, table⟩

end DiveTable
