import DiveTable.Proofs.DecimalCells
import DiveTable.Proofs.DecimalLiterals
import DiveTable.Proofs.DumpTable
import DiveTable.Proofs.FieldValues

/-! # Decimals from a dump to its table

The last number of a kind in a time segment is shown in the line of that segment. Main statement: if
its column has room for the literal that it is written as, its cell is that literal, with zeros up
to the places of the column. -/
namespace DiveTable

open Json

namespace DecimalColumn

def kind : DecimalColumn → String
  | reading q => q.name
  | stopDepth => "deco"

def number? : DecimalColumn → Event → Option Binary64
  | reading q, event => event.reading? q
  | stopDepth, event => event.deco?.map Deco.depth

theorem kind_of_number {c : DecimalColumn} {event : Event} {x : Binary64}
    (h : c.number? event = some x) : event.kind = c.kind ∧ event.isTime = false := by
  cases c with
  | reading q =>
    cases event with
    | reading p y =>
      by_cases same : p = q
      · exact ⟨congrArg Quantity.name same, rfl⟩
      · have other : none = some x := (if_neg same).symm.trans h
        cases other
    | time | deco | other => cases h
  | stopDepth =>
    cases event with
    | deco state => exact ⟨rfl, rfl⟩
    | time | reading | other => cases h

/-- The cell of a segment shows the last number that its events have for the column. -/
theorem cell_row {c : DecimalColumn} {s : Segment} {x : Binary64}
    (h : (s.events.filterMap c.number?).getLast? = some x) :
    c.cell s.row = x.fixedText c.places := by
  cases c with
  | reading q =>
    have last : s.row.get q = some x := (Segment.get_row s q).trans h
    change optionalText (s.row.get q) q.places = _
    rw [last]
    rfl
  | stopDepth =>
    have depths : s.events.filterMap (number? stopDepth) =
        (s.events.filterMap Event.deco?).map Deco.depth := List.map_filterMap.symm
    rw [depths, List.getLast?_map] at h
    obtain ⟨state, last, rfl⟩ := Option.map_eq_some_iff.1 h
    change ((s.events.filterMap Event.deco?).getLast?.getD .clear).depth.fixedText 2 = _
    rw [last]
    rfl

end DecimalColumn

/-! ## Samples as they are written -/

/-- A sample of a kind, with what is written for its value. -/
structure IsSample (kind : String) (sample value : Expr) : Prop where
  kind : ∃ token, SpellsText kind.toList token ∧ HasField "type" 0 sample (.string token)
  value : HasField "value" 1 sample value

inductive DecimalColumn.Writes (l : Literal) (sample : Expr) : DecimalColumn → Prop
  | reading {q : Quantity} (h : IsSample q.name sample (.number l)) : Writes l sample (.reading q)
  | stopDepth {value : Expr} (h : IsSample "deco" sample value)
    (depth : HasField "depth" 2 value (.number l)) : Writes l sample .stopDepth

namespace Sample

theorem written_eq_ok {kind : String} {expr value : Expr} {budget : Nat} {v : Value}
    {event : Event} (written : IsSample kind expr value) (read : expr.value? budget = some v)
    (decoded : eventOfValue v = .ok event) :
    ∃ (sample : Sample) (inner : Nat), sample.kind = kind ∧ value.value? inner = some sample.value ∧
      sample.event = .ok event := by
  obtain ⟨token, spells, kindField⟩ := written.kind
  obtain ⟨sample, shaped, decoded⟩ := eventOfValue_eq_ok decoded
  obtain ⟨isKind, isValue⟩ := fields_of_ofValue shaped
  obtain ⟨_, w, kindValue, found⟩ := value_of_hasField kindField read
  rw [Expr.value?, tokenText_eq_some.2 spells] at kindValue
  cases kindValue
  cases isKind.symm.trans found
  obtain ⟨inner, x, value, found⟩ := value_of_hasField written.value read
  rw [found] at isValue
  rw [← show sample.value = x from isValue] at value
  exact ⟨sample, inner, rfl, value, decoded⟩

theorem event_of_reading {q : Quantity} {n : Number} {sample : Sample} (kind : sample.kind = q.name)
    (value : sample.value = .number n) : sample.event = .ok (.reading q n.toBinary64) := by
  have notDeco : q.name ≠ "deco" := by cases q <;> decide
  rw [Sample.event, kind, if_neg (name_ne_time q), if_neg notDeco, Quantity.ofName_name, value]
  rfl

theorem event_of_deco {sample : Sample} {event : Event} (kind : sample.kind = "deco")
    (h : sample.event = .ok event) :
    ∃ deco status, decoOfValue sample.value = .ok deco ∧
      event = .deco ⟨status, deco.seconds, deco.depth⟩ := by
  have notTime : ¬"deco" = "time" := by decide
  rw [Sample.event, kind, if_neg notTime, if_pos rfl] at h
  exact decoEvent_eq_ok h

/-- The event of a sample has the number that its literal is read as. -/
theorem number_of_written {c : DecimalColumn} {l : Literal} {expr : Expr} {budget : Nat}
    {v : Value} {event : Event} (written : c.Writes l expr) (read : expr.value? budget = some v)
    (decoded : eventOfValue v = .ok event) :
    ∃ n, l.number? = some n ∧ c.number? event = some n.toBinary64 := by
  cases written with
  | @reading q h =>
    obtain ⟨sample, inner, kind, value, decoded⟩ := written_eq_ok h read decoded
    rw [Expr.value?] at value
    obtain ⟨n, number, same⟩ := Option.map_eq_some_iff.1 value
    rw [event_of_reading kind same.symm] at decoded
    cases decoded
    exact ⟨n, number, if_pos rfl⟩
  | stopDepth h depth =>
    obtain ⟨sample, inner, kind, value, decoded⟩ := written_eq_ok h read decoded
    obtain ⟨deco, status, shaped, rfl⟩ := event_of_deco kind decoded
    obtain ⟨_, w, read, field⟩ := value_of_hasField depth value
    rw [Expr.value?] at read
    obtain ⟨n, number, rfl⟩ := Option.map_eq_some_iff.1 read
    have stop := depth_of_decoOfValue shaped
    rw [field] at stop
    have same := Except.ok.inj stop
    exact ⟨n, number, congrArg some same.symm⟩

/-! ## The segment of a sample -/

def restOfSegment (samples : List Value) (k i : Nat) : List Value :=
  ((samples.take k).drop (i + 1)).takeWhile fun raw => !isTime raw

end Sample

/-- The line of a segment shows the last number of its events in each column. -/
theorem DecimalColumn.line_of_event {c : DecimalColumn} {events : List Event} {i : Nat}
    {event : Event} {x : Binary64} (mem : events[i]? = some event)
    (number : c.number? event = some x)
    (timed : 0 < (events.take i).countP Event.isTime)
    (last : ∀ later ∈ (events.drop (i + 1)).takeWhile fun e => !e.isTime, c.number? later = none) :
    ∃ row, (tableLines (Accumulator.rows events))[(events.take i).countP Event.isTime]? =
        some row.line ∧ c.cell row = x.fixedText c.places := by
  obtain ⟨inside, rfl⟩ := List.getElem?_eq_some_iff.1 mem
  obtain ⟨n, count⟩ := Nat.exists_eq_succ_of_ne_zero (Nat.ne_of_gt timed)
  have whole : events = events.take i ++ events[i] :: events.drop (i + 1) := by
    rw [← List.drop_eq_getElem_cons inside, List.take_append_drop]
  have timeless := (kind_of_number number).2
  obtain ⟨s, front, isSegment, inSegment⟩ :=
    Segment.segment_of_event timeless (events.drop (i + 1)) count
  rw [← whole] at isSegment
  have isLast := Segment.getLast_filterMap number front last
  rw [← inSegment] at isLast
  refine ⟨s.row, ?_, cell_row isLast⟩
  rw [count, tableLines, List.getElem?_cons_succ, Accumulator.rows_eq_map_cut, List.getElem?_map,
    List.getElem?_map, isSegment]
  rfl

/-- The literal of a number that is the last of its kind in its time segment and in front of any
fault stands in the line of that segment as it is written, with zeros up to the places of its
column. -/
theorem cell_of_literal (c : DecimalColumn) (l : Literal) (room : l.Showable c.places)
    (expr sample : Expr) (input : List UInt8) (dump : Dump) (spelled : Spelled expr input)
    (accepted : Dump.parse input = .ok dump) (items : List Expr)
    (samples : HasField "samples" 6 expr (.array items)) (i k : Nat) (mem : items[i]? = some sample)
    (written : c.Writes l sample) (fault : Sample.FirstFault dump.samples k) (before : i < k)
    (timed : ∃ raw ∈ dump.samples.take i, Sample.isTime raw = true)
    (last : ∀ raw ∈ Sample.restOfSegment dump.samples k i, Sample.kindOf? raw ≠ some c.kind)
    (debug : Bool) :
    ∃ summary text lines line,
      (convert debug dump.items .empty).outcome = .ok (summary, .memory text) ∧
      splitAt '\n' text.toList = lines ++ [[]] ∧
      lines[(dump.samples.take i).countP Sample.isTime]? = some line ∧
      (splitAt ',' line)[header.idxOf c.title]? = some (l.padded c.places) := by
  obtain ⟨v, read, raw⟩ := Dump.sample_of_parse spelled accepted samples mem
  obtain rfl := fault.unique (Cursor.firstFault_events dump.samples)
  have decoded := Cursor.decodes_take dump.samples (Nat.le_refl _)
  have front := Cursor.decodes_take dump.samples (Nat.le_of_lt before)
  rw [List.take_length] at decoded
  have taken := (List.getElem?_take_of_lt before).trans raw
  obtain ⟨event, delivered, isEvent⟩ := decoded.getElem taken
  obtain ⟨n, number, shown⟩ := Sample.number_of_written written read isEvent
  obtain ⟨m, number', text⟩ := Literal.shown_as_written room c.places_pos c.places_le
  cases number.symm.trans number'
  have count := front.countP_eq fun _ _ h => (Sample.kind_of_decoded h).1
  have none : ∀ later ∈ ((Items.events (Cursor.items dump.samples)).drop (i + 1)).takeWhile
      fun e => !e.isTime, c.number? later = none := by
    intro later inside
    obtain ⟨raw, behind, isLater⟩ := (decoded.drop (i + 1)).timeless.of_mem inside
    have other := last raw behind
    rw [Sample.kind_of_eventOfValue isLater] at other
    cases value : c.number? later with
    | none => rfl
    | some x => exact absurd (congrArg some (DecimalColumn.kind_of_number value).1) other
  have positive := List.countP_pos_iff.2 timed
  rw [count] at positive ⊢
  obtain ⟨row, isLine, isCell⟩ := DecimalColumn.line_of_event delivered shown positive none
  have converted := convert_memory debug dump.items ""
  rw [String.empty_append] at converted
  refine ⟨_, _, _, _, converted, splitAt_tableText _,
    (List.getElem?_map ..).trans (congrArg _ isLine), ?_⟩
  rw [Row.splitAt_line, List.getElem?_map, c.field_at_title, isCell, ← text]
  rfl

/-! ## A dive at the edge -/

section

open Document (bytesOf whole named_of_text)

def leastLiteral : Literal := ⟨true, 9, List.replicate 12 9, [9], none, by decide⟩

def minusZero : Literal := ⟨true, 0, [], [], none, by decide⟩

def oneDigit (lead : Fin 10) : Expr := whole lead [] (.inl rfl)

def timeItems (lead : Fin 10) : List Expr := [.string (bytesOf "time"), oneDigit lead]

def edgeStop : List Expr :=
  [.string (bytesOf "DecoStop"), oneDigit 9, .number minusZero]

/-- Two depths and a stop in one segment, and behind them a step back in time. -/
def edgeSamples : List Expr :=
  [.array (timeItems 4), .array [.string (bytesOf "depth"), oneDigit 7],
    .array [.string (bytesOf "depth"), .number leastLiteral],
    .object [(bytesOf "value", .array edgeStop), (bytesOf "type", .string (bytesOf "deco"))],
    .array (timeItems 3)]

def edgeExpr : Expr :=
  .object [(bytesOf "format_version", .string (bytesOf "1.0.0")),
    (bytesOf "vendor", .string (bytesOf "Divesoft")),
    (bytesOf "product", .string (bytesOf "Freedom")), (bytesOf "samples", .array edgeSamples)]

theorem hasField_edgeSamples : HasField "samples" 6 edgeExpr (.array edgeSamples) := by
  have named : Named "samples" (bytesOf "samples", .array edgeSamples) :=
    named_of_text (by decide +kernel)
  exact .member [_, _, _] [] named nofun

theorem writes_leastLiteral : (DecimalColumn.reading .depth).Writes leastLiteral
    (.array [.string (bytesOf "depth"), .number leastLiteral]) := by
  have kind : tokenText? (bytesOf "depth") = some "depth" := by decide +kernel
  exact .reading ⟨⟨_, tokenText_eq_some.1 kind, .item rfl⟩, .item rfl⟩

theorem writes_minusZero : DecimalColumn.stopDepth.Writes minusZero
    (.object [(bytesOf "value", .array edgeStop), (bytesOf "type", .string (bytesOf "deco"))]) := by
  have kind : tokenText? (bytesOf "deco") = some "deco" := by decide +kernel
  have typeKey : Named "type" (bytesOf "type", .string (bytesOf "deco")) :=
    named_of_text (by decide +kernel)
  have valueKey : Named "value" (bytesOf "value", .array edgeStop) :=
    named_of_text (by decide +kernel)
  refine .stopDepth ⟨⟨_, tokenText_eq_some.1 kind, .member [_] [] typeKey nofun⟩,
    .member [] [_] valueKey ?_⟩ (.item rfl)
  intro m mem named
  cases List.mem_singleton.1 mem
  exact absurd (named_unique named typeKey) (by decide)

theorem cell_of_edgeLiterals :
    ∃ input dump, Spelled edgeExpr input ∧ Dump.parse input = .ok dump ∧ ∀ debug,
      (∃ summary text lines line,
        (convert debug dump.items .empty).outcome = .ok (summary, .memory text) ∧
        splitAt '\n' text.toList = lines ++ [[]] ∧ lines[1]? = some line ∧
        (splitAt ',' line)[header.idxOf "Depth"]? = some "-9999999999999.90".toList) ∧
      ∃ summary text lines line,
        (convert debug dump.items .empty).outcome = .ok (summary, .memory text) ∧
        splitAt '\n' text.toList = lines ++ [[]] ∧ lines[1]? = some line ∧
        (splitAt ',' line)[header.idxOf "DecoDepth"]? = some "-0.00".toList := by
  have spelled : Spelled edgeExpr ([] ++ edgeExpr.print []) :=
    spelled_print (by decide +kernel) nofun nofun
  have read : (Dump.parse ([] ++ edgeExpr.print [])).toOption.map (fun dump =>
      ((Items.events dump.items).length, (dump.samples.take 2).countP Sample.isTime,
        (dump.samples.take 3).countP Sample.isTime,
        (Sample.restOfSegment dump.samples 4 2).map Sample.kindOf?)) =
      some (4, 1, 1, [some "deco"]) := by
    decide +kernel
  obtain ⟨dump, value, facts⟩ := Option.map_eq_some_iff.1 read
  obtain ⟨length, facts⟩ := Prod.mk.inj facts
  obtain ⟨count, facts⟩ := Prod.mk.inj facts
  obtain ⟨count', behind⟩ := Prod.mk.inj facts
  have accepted := eq_ok_of_toOption value
  have fault : Sample.FirstFault dump.samples 4 := length ▸ Cursor.firstFault_events dump.samples
  have last : ∀ raw ∈ Sample.restOfSegment dump.samples 4 2,
      Sample.kindOf? raw ≠ some (DecimalColumn.reading .depth).kind := by
    intro raw mem
    have kind : Sample.kindOf? raw ∈ [some "deco"] := behind ▸ List.mem_map_of_mem mem
    rw [List.mem_singleton.1 kind]
    decide
  have last' : ∀ raw ∈ Sample.restOfSegment dump.samples 4 3,
      Sample.kindOf? raw ≠ some DecimalColumn.stopDepth.kind := by
    simp [Sample.restOfSegment]
  have timed := List.countP_pos_iff.1 (count ▸ Nat.one_pos)
  have timed' := List.countP_pos_iff.1 (count' ▸ Nat.one_pos)
  have text : leastLiteral.padded 2 = "-9999999999999.90".toList := by decide +kernel
  have text' : minusZero.padded 2 = "-0.00".toList := by decide +kernel
  refine ⟨_, dump, spelled, accepted, fun debug => ⟨?_, ?_⟩⟩
  · rw [← text, ← count]
    exact cell_of_literal (.reading .depth) leastLiteral ⟨rfl, by decide, by decide +kernel⟩
      edgeExpr _ _ dump spelled accepted edgeSamples hasField_edgeSamples 2 4 rfl
      writes_leastLiteral fault (by decide) timed last debug
  · rw [← text', ← count']
    exact cell_of_literal .stopDepth minusZero ⟨rfl, by decide, by decide +kernel⟩
      edgeExpr _ _ dump spelled accepted edgeSamples hasField_edgeSamples 3 4 rfl
      writes_minusZero fault (by decide) timed' last' debug

end

end DiveTable
