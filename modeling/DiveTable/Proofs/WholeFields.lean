import DiveTable.Proofs.RecordValues
import DiveTable.Proofs.SoundDocuments
import DiveTable.Proofs.HugeLiterals
import DiveTable.Proofs.LiteralCells
import DiveTable.Proofs.StreamFaults

/-! # Fields of whole numbers

Seconds, milliseconds and the parts of a date are whole numbers of one, two or four bytes. Main
statement: whatever literal is written for one of them in a dump that is otherwise valid, the field
is that literal or the literal is refused, `Dump.whole_fields_exact`. A document is refused with its
text, a sample when it is delivered. -/
namespace DiveTable

open Json

/-- Nothing but digits, and a number that is not above the greatest of a field. -/
def Json.Literal.Within (maximum : Nat) (l : Literal) : Prop := l.Bare ∧ l.significand ≤ maximum

inductive DatePart where
  | year
  | month
  | day
  | hour
  | minute
  | second
  deriving DecidableEq, Repr

namespace DatePart

def name : DatePart → String
  | year => "year"
  | month => "month"
  | day => "day"
  | hour => "hour"
  | minute => "minute"
  | second => "second"

def place : DatePart → Nat
  | year => 0
  | month => 1
  | day => 2
  | hour => 3
  | minute => 4
  | second => 5

def maximum : DatePart → Nat
  | year => 65535
  | _ => 255

def get (date : DateTime) : DatePart → Nat
  | year => date.year.toNat
  | month => date.month.toNat
  | day => date.day.toNat
  | hour => date.hour.toNat
  | minute => date.minute.toNat
  | second => date.second.toNat

def put (part : DatePart) (n : Nat) (draft : Document.DateTimeDraft) : Document.DateTimeDraft :=
  match part with
  | year => { draft with year := some n.toUInt16 }
  | month => { draft with month := some n.toUInt8 }
  | day => { draft with day := some n.toUInt8 }
  | hour => { draft with hour := some n.toUInt8 }
  | minute => { draft with minute := some n.toUInt8 }
  | second => { draft with second := some n.toUInt8 }

end DatePart

inductive SampleNumber where
  | time
  | stopTime
  deriving DecidableEq, Repr

namespace SampleNumber

def ofEvent? : SampleNumber → Event → Option Nat
  | time, event => event.time?.map UInt32.toNat
  | stopTime, event => event.deco?.map fun state => state.seconds.toNat

/-- A sample as it depends on what is written for its number. -/
inductive Holds : SampleNumber → (Expr → Expr) → Prop
  | time {sample : Expr → Expr} (value : LastIn "value" 1 sample) : Holds time sample
  | stopTime {sample stop : Expr → Expr} (value : LastIn "value" 1 sample)
    (time : LastIn "time" 1 stop) : Holds stopTime fun expr => sample (stop expr)

end SampleNumber

inductive WholeField where
  | diveTime
  | date (part : DatePart)
  | sample (number : SampleNumber) (index : Nat)
  deriving DecidableEq, Repr

namespace WholeField

def maximum : WholeField → Nat
  | date part => part.maximum
  | _ => 4294967295

def sample? : WholeField → Option Nat
  | sample _ index => some index
  | _ => none

def shown? (dump : Dump) : WholeField → Option Nat
  | diveTime => dump.diveTime?.map UInt32.toNat
  | date part => dump.dateTime?.map fun date => part.get date
  | sample number index =>
    (dump.items[index]?.bind Except.toOption).bind number.ofEvent?

inductive Holds : WholeField → (Expr → Expr) → Prop
  | diveTime {written : Expr → Expr} (h : FieldIn "dive_time" 5 written) : Holds diveTime written
  | date {part : DatePart} {written date : Expr → Expr} (h : FieldIn "datetime" 3 written)
    (inside : FieldIn part.name part.place date) :
    Holds (.date part) fun expr => written (date expr)
  | sample {number : SampleNumber} {written sample : Expr → Expr} (front rest : List Expr)
    (h : FieldIn "samples" 6 written) (inside : number.Holds sample) :
    Holds (.sample number front.length) fun expr =>
      written (.array (front ++ sample expr :: rest))

/-- A time has no other in front of it, which it could undercut. -/
def First (dump : Dump) : WholeField → Prop
  | sample .time index => ∀ raw ∈ dump.samples.take index, Sample.isTime raw = false
  | _ => True

theorem maximum_lt (field : WholeField) : field.maximum < twoTo 63 := by
  rcases field with _ | part | _
  · show 4294967295 < twoTo 63
    decide
  · cases part <;> decide
  · show 4294967295 < twoTo 63
    decide

/-- What fits into a field is read as a number. -/
theorem number_of_within (field : WholeField) {l : Literal} (within : l.Within field.maximum) :
    l.number? ≠ none := by
  have fits : twoTo 63 < UInt64.size := by decide
  have small := Nat.lt_trans (Nat.lt_of_le_of_lt within.2 field.maximum_lt) fits
  rw [Literal.number_of_bare within.1 small]
  exact Option.some_ne_none _

end WholeField

/-! ## Whole numbers of a document -/

section

variable {maximum : Nat} {l : Literal}

theorem numeric_literal {n : Nat} (fits : maximum < UInt64.size) :
    (Expr.number l).numeric? (Number.natural? (maximum + 1)) = some n ↔
      l.Within maximum ∧ n = l.significand := by
  rw [Expr.numeric?, Literal.natural_eq_some fits, Nat.lt_succ_iff, ← and_assoc]
  rfl

theorem numeric_none (fits : maximum < UInt64.size) (h : ¬l.Within maximum) :
    (Expr.number l).numeric? (Number.natural? (maximum + 1)) = none := by
  apply Option.eq_none_iff_forall_ne_some.2
  intro n read
  exact h ((numeric_literal fits).1 read).1

end

namespace Document

theorem slot_part (part : DatePart) : ∃ isSet, dateTimeLayout.slots[part.place]? =
    some ⟨part.name, isSet, fun expr =>
      (expr.numeric? (Number.natural? (part.maximum + 1))).map part.put⟩ := by
  cases part with
  | year | month | day | hour | minute | second =>
    exact ⟨_, congrArg some (congrArg (Slot.mk _ _) (funext fun expr => Option.map_map ..))⟩

theorem completeDateTime_eq_ok {draft : DateTimeDraft} {date : DateTime} :
    completeDateTime draft = .ok date ↔ ∃ year month day, draft.year = some year ∧
      draft.month = some month ∧ draft.day = some day ∧
      date = ⟨year, month, day, draft.hour.getD 0, draft.minute.getD 0, draft.second.getD 0⟩ := by
  unfold completeDateTime
  constructor
  · intro h
    split at h
    · cases h
    · cases h
    · cases h
    · rename_i year month day isYear isMonth isDay
      exact ⟨year, month, day, isYear, isMonth, isDay, (Except.ok.inj h).symm⟩
  · rintro ⟨year, month, day, isYear, isMonth, isDay, rfl⟩
    rw [isYear, isMonth, isDay]

/-- A date is complete with any number in the place of another, and has that number. -/
theorem complete_part {part : DatePart} {n m : Nat} {draft : DateTimeDraft} {date : DateTime}
    (h : dateTimeLayout.complete? (part.put n draft) = some date)
    (small : m ≤ part.maximum) :
    ∃ date', dateTimeLayout.complete? (part.put m draft) = some date' ∧
      part.get date' = m := by
  obtain ⟨y, mo, d, isYear, isMonth, isDay, -⟩ := completeDateTime_eq_ok.1 (eq_ok_of_toOption h)
  have complete {draft : DateTimeDraft} {date : DateTime} (h : completeDateTime draft = .ok date) :
      dateTimeLayout.complete? draft = some date := congrArg Except.toOption h
  cases part with
  | year =>
    refine ⟨_, complete (completeDateTime_eq_ok.2 ⟨_, _, _, rfl, isMonth, isDay, rfl⟩), ?_⟩
    exact UInt16.toNat_ofNat_of_lt' (Nat.lt_succ_of_le small)
  | month =>
    refine ⟨_, complete (completeDateTime_eq_ok.2 ⟨_, _, _, isYear, rfl, isDay, rfl⟩), ?_⟩
    exact UInt8.toNat_ofNat_of_lt' (Nat.lt_succ_of_le small)
  | day =>
    refine ⟨_, complete (completeDateTime_eq_ok.2 ⟨_, _, _, isYear, isMonth, rfl, rfl⟩), ?_⟩
    exact UInt8.toNat_ofNat_of_lt' (Nat.lt_succ_of_le small)
  | hour | minute | second =>
    refine ⟨_, complete (completeDateTime_eq_ok.2 ⟨_, _, _, isYear, isMonth, isDay, rfl⟩), ?_⟩
    exact UInt8.toNat_ofNat_of_lt' (Nat.lt_succ_of_le small)

theorem part_maximum (part : DatePart) : part.maximum < UInt64.size := by
  cases part <;> decide

/-- A part of a date is what is written for it, if that fits. -/
theorem date_read {part : DatePart} {date : Expr → Expr} {other : Expr} {whole : DateTime}
    (field : FieldIn part.name part.place date) (h : dateTimeLayout.of? (date other) = some whole)
    (l : Literal) :
    (l.Within part.maximum → ∃ whole', dateTimeLayout.of? (date (.number l)) = some whole' ∧
      part.get whole' = l.significand) ∧
    (¬l.Within part.maximum → dateTimeLayout.of? (date (.number l)) = none) := by
  obtain ⟨isSet, isSlot⟩ := slot_part part
  obtain ⟨draft, update, updated, completed, others⟩ :=
    Layout.exists_draft separate_dateTime isSlot field h
  obtain ⟨n, -, rfl⟩ := Option.map_eq_some_iff.1 updated
  rw [others]
  dsimp only
  constructor
  · intro within
    obtain ⟨whole', completed', same⟩ := complete_part completed within.2
    rw [(numeric_literal (part_maximum part)).2 ⟨within, rfl⟩]
    exact ⟨whole', completed', same⟩
  · intro outside
    rw [numeric_none (part_maximum part) outside]
    rfl

structure SameHead (document document' : Document) : Prop where
  version : document.formatVersion = document'.formatVersion
  vendor : document.vendor = document'.vendor
  product : document.product = document'.product

/-- A document is complete by its version and its device. -/
theorem complete_of_named {draft draft' : Draft} {document : Document}
    (h : layout.complete? draft = some document)
    (version : draft'.formatVersion = draft.formatVersion) (vendor : draft'.vendor = draft.vendor)
    (product : draft'.product = draft.product) :
    ∃ document', layout.complete? draft' = some document' ∧ SameHead document document' ∧
      complete draft' = .ok document' := by
  have completed := eq_ok_of_toOption h
  change ∃ document', (complete draft').toOption = some document' ∧ _
  unfold complete at completed ⊢
  rw [version, vendor, product]
  split at completed
  · cases completed
  · cases completed
  · cases completed
  · cases completed
    exact ⟨_, rfl, ⟨rfl, rfl, rfl⟩, rfl⟩

theorem optional_uint32 {l : Literal} :
    (l.Within 4294967295 →
      (Expr.number l).optional? Expr.uint32? = some (some l.significand.toUInt32)) ∧
    (¬l.Within 4294967295 → (Expr.number l).optional? Expr.uint32? = none) := by
  have fits : 4294967295 < UInt64.size := by decide
  have word : (Expr.number l).optional? Expr.uint32? = (((Expr.number l).numeric?
    (Number.natural? (4294967295 + 1))).map Nat.toUInt32).map some := rfl
  rw [word]
  constructor
  · intro within
    rw [(numeric_literal fits).2 ⟨within, rfl⟩]
    rfl
  · intro outside
    rw [numeric_none fits outside]
    rfl

theorem diveTime_read {written : Expr → Expr} {other : Expr} {document : Document}
    (field : FieldIn "dive_time" 5 written) (h : layout.of? (written other) = some document)
    (l : Literal) :
    (l.Within 4294967295 → ∃ document', layout.of? (written (.number l)) = some document' ∧
      SameHead document document' ∧
      document'.diveTime.map UInt32.toNat = some l.significand) ∧
    (¬l.Within 4294967295 → layout.of? (written (.number l)) = none) := by
  have isSlot : layout.slots[5]? = some (slot "dive_time" (fun d => d.diveTime.isSome)
    (Expr.optional? Expr.uint32?) fun x d => { d with diveTime := some x }) := rfl
  obtain ⟨draft, update, updated, completed, others⟩ :=
    Layout.exists_draft separate_document isSlot field h
  obtain ⟨x, -, rfl⟩ := Option.map_eq_some_iff.1 updated
  rw [others, slot]
  dsimp only
  constructor
  · intro within
    let draft' : Draft := { draft with diveTime := some (some l.significand.toUInt32) }
    obtain ⟨document', completed', same, whole⟩ :=
      @complete_of_named _ draft' _ completed rfl rfl rfl
    rw [optional_uint32.1 within]
    refine ⟨document', completed', same, ?_⟩
    rw [(complete_eq_ok whole).2.2.1]
    exact congrArg some (UInt32.toNat_ofNat_of_lt' (Nat.lt_succ_of_le within.2))
  · intro outside
    rw [optional_uint32.2 outside]
    rfl

theorem optional_fieldIn {α : Type} {name : String} {place : Nat} {written : Expr → Expr}
    (h : FieldIn name place written) (of? : Expr → Option α) (expr : Expr) :
    Expr.optional? of? (written expr) = (of? (written expr)).map some := by
  cases h <;> rfl

theorem dateTime_read {part : DatePart} {written date : Expr → Expr} {other : Expr}
    {document : Document} (field : FieldIn "datetime" 3 written)
    (inside : FieldIn part.name part.place date)
    (h : layout.of? (written (date other)) = some document) (l : Literal) :
    (l.Within part.maximum → ∃ document', layout.of? (written (date (.number l))) = some document' ∧
      SameHead document document' ∧
      document'.dateTime.map (fun whole => part.get whole) = some l.significand) ∧
    (¬l.Within part.maximum → layout.of? (written (date (.number l))) = none) := by
  obtain ⟨draft, update, updated, completed, others⟩ :=
    Layout.exists_draft separate_document slots_dateTime field h
  obtain ⟨x, dated, rfl⟩ := Option.map_eq_some_iff.1 updated
  rw [optional_fieldIn inside] at dated
  obtain ⟨whole, read, rfl⟩ := Option.map_eq_some_iff.1 dated
  obtain ⟨accepts, refuses⟩ := date_read inside read l
  rw [others, slot]
  dsimp only
  rw [optional_fieldIn inside]
  constructor
  · intro within
    obtain ⟨whole', read', same'⟩ := accepts within
    let draft' : Draft := { draft with dateTime := some (some whole') }
    obtain ⟨document', completed', same, finished⟩ :=
      @complete_of_named _ draft' _ completed rfl rfl rfl
    rw [read']
    refine ⟨document', completed', same, ?_⟩
    rw [(complete_eq_ok finished).1]
    exact congrArg some same'
  · intro outside
    rw [refuses outside]
    rfl

end Document

/-! ## Whole numbers of a sample -/

namespace Sample

theorem isWord_number {n : Number} {w : UInt32} :
    IsWord (.number n) w ↔ ∃ k, n = .natural k ∧ k.toNat = w.toNat := by
  constructor
  · rintro ⟨k, same, word⟩
    exact ⟨k, Value.number.inj same, word⟩
  · rintro ⟨k, rfl, word⟩
    exact ⟨k, rfl, word⟩

/-- The number of a literal is a word just when the literal fits. -/
theorem word_literal {l : Literal} {n : Number} (read : l.number? = some n) {w : UInt32} :
    IsWord (.number n) w ↔ l.Within 4294967295 ∧ l.significand = w.toNat := by
  rw [isWord_number]
  have bound := w.toNat_lt_size
  constructor
  · rintro ⟨k, rfl, same⟩
    obtain ⟨bare, digits⟩ := Literal.number_eq_natural.1 read
    rw [same] at digits
    exact ⟨⟨bare, by rw [digits]; exact Nat.le_of_lt_succ bound⟩, digits⟩
  · rintro ⟨⟨bare, -⟩, same⟩
    have back : (UInt64.ofNat w.toNat).toNat = w.toNat :=
      UInt64.toNat_ofNat_of_lt' (Nat.lt_trans bound (by decide))
    have natural : l.number? = some (.natural (UInt64.ofNat w.toNat)) :=
      Literal.number_eq_natural.2 ⟨bare, by rw [back, same]⟩
    rw [read] at natural
    exact ⟨_, Option.some.inj natural, back⟩

/-- A sample that is decoded by its number alone: to an event with that number if it is a word, and
to none if it is not. -/
structure TakesWord (number : SampleNumber) (of : Number → Value) : Prop where
  accepts : ∀ n w, IsWord (.number n) w → ∃ event, eventOfValue (of n) = .ok event
  word : ∀ n event, eventOfValue (of n) = .ok event →
    ∃ w, IsWord (.number n) w ∧ number.ofEvent? event = some w.toNat

theorem takesWord_time {raw value v : Value} (fields : Fields raw "time" value)
    (has : raw.field? "value" 1 = some v) :
    TakesWord .time fun n => raw.put "value" 1 (.number n) := by
  have event (n : Number) : eventOfValue (raw.put "value" 1 (.number n)) = timeEvent (.number n) :=
    (eventOfValue_of_fields (fields.put has _)).trans (event_time _)
  constructor
  · intro n w word
    exact ⟨_, (event n).trans (timeEvent_iff.2 ⟨w, word, rfl⟩)⟩
  · intro n decoded h
    rw [event] at h
    obtain ⟨w, word, rfl⟩ := timeEvent_iff.1 h
    exact ⟨w, word, rfl⟩

theorem takesWord_stopTime {raw value v : Value} {name : String} {time depth : Option Value}
    {state : Deco} (fields : Fields raw "deco" value)
    (has : raw.field? "value" 1 = some value) (parts : DecoFields value name time depth)
    (timed : value.field? "time" 1 = some v)
    (status : (smallLetters name, state.status) ∈ statusNames)
    (metres : Given IsReading .zero depth state.depth) :
    TakesWord .stopTime fun n => raw.put "value" 1 (value.put "time" 1 (.number n)) := by
  have event (n : Number) : eventOfValue (raw.put "value" 1 (value.put "time" 1 (.number n))) =
      decoEvent (value.put "time" 1 (.number n)) :=
    (eventOfValue_of_fields (fields.put has _)).trans (event_deco _)
  constructor
  · intro n w word
    refine ⟨.deco ⟨state.status, w, state.depth⟩, (event n).trans (decoEvent_iff.2 ?_)⟩
    exact ⟨name, _, depth, ⟨state.status, w, state.depth⟩, parts.put timed _, status, word, metres,
      rfl⟩
  · intro n decoded h
    rw [event] at h
    obtain ⟨name', time', depth', state', parts', -, seconds, -, rfl⟩ := decoEvent_iff.1 h
    obtain ⟨-, -, rfl, -⟩ := decoFields_iff.1 parts'
    rw [Value.field_put timed] at seconds
    exact ⟨state'.seconds, seconds, rfl⟩

/-- What a sample becomes with another number in its place. -/
theorem takesWord_of_holds {number : SampleNumber} {sample : Expr → Expr} {other : Expr}
    {budget n : Nat} {raw : Value} {event : Event} (holds : number.Holds sample)
    (read : (sample other).value? (budget + 2) = some raw) (decoded : eventOfValue raw = .ok event)
    (shows : number.ofEvent? event = some n) :
    ∃ of : Number → Value, TakesWord number of ∧
      ∀ l : Literal, (sample (.number l)).value? (budget + 2) = l.number?.map of := by
  have stands := eventOfValue_iff.1 decoded
  cases holds with
  | time value =>
    obtain ⟨⟨v, -, has⟩, others⟩ := value_of_lastIn value read
    cases stands with
    | time fields word =>
      refine ⟨_, takesWord_time fields has, fun l => ?_⟩
      rw [others, Expr.value?, Option.map_map]
      rfl
    | reading | deco | other => cases shows
  | @stopTime sample stop value time =>
    obtain ⟨⟨v, isStop, has⟩, others⟩ := value_of_lastIn value read
    obtain ⟨⟨w, -, timed⟩, others'⟩ := value_of_lastIn time isStop
    cases stands with
    | deco fields parts status seconds metres =>
      obtain ⟨-, -, same⟩ := fields_iff.1 fields
      rw [has, Option.getD_some] at same
      subst same
      refine ⟨_, takesWord_stopTime fields has parts timed status metres, fun l => ?_⟩
      rw [others, others', Expr.value?, Option.map_map, Option.map_map]
      rfl
    | time | reading | other => cases shows

end Sample

namespace Cursor

theorem lastTime_of_untimed {before : List Value} {delivered : List Event}
    (h : Sample.Decodes before delivered)
    (untimed : ∀ raw ∈ before, Sample.isTime raw = false) : lastTime? delivered = none := by
  have none : delivered.filterMap Event.time? = [] := by
    apply List.filterMap_eq_nil_iff.2
    intro event mem
    obtain ⟨raw, inside, decoded⟩ := h.of_mem mem
    have timeless := (Sample.kind_of_decoded decoded).1
    rw [untimed raw inside] at timeless
    cases event with
    | time ms => cases timeless
    | reading | deco | other => rfl
  rw [lastTime?, none]
  rfl

/-- A sample that is reached has the number of the literal, or is refused in its place. -/
theorem item_of_literal {number : SampleNumber} {of : Number → Value}
    (takes : Sample.TakesWord number of) {l : Literal} {n : Number} (read : l.number? = some n)
    {before behind : List Value}
    (reached : Items.Reached (items (before ++ of n :: behind)) before.length)
    (first : number = .time → ∀ raw ∈ before, Sample.isTime raw = false) :
    (l.Within 4294967295 → ∃ event,
      (items (before ++ of n :: behind))[before.length]? = some (.ok event) ∧
        number.ofEvent? event = some l.significand) ∧
    (¬l.Within 4294967295 → ∃ reason,
      (items (before ++ of n :: behind))[before.length]? =
        some (.error (.invalidSample before.length reason))) := by
  have mem : (before ++ of n :: behind)[before.length]? = some (of n) := by simp
  obtain ⟨delivered, decodes, length, isItem⟩ := item_of_reached mem reached
  rw [List.take_left] at decodes
  have untimed : ∀ ms, Sample.eventOfValue (of n) = .ok (.time ms) →
      lastTime? delivered = none := by
    intro ms decoded
    obtain ⟨w, -, shows⟩ := takes.word n _ decoded
    cases number with
    | time => exact lastTime_of_untimed decodes (first rfl)
    | stopTime => cases shows
  rw [isItem, verdict_eq_decode untimed, length]
  constructor
  · intro within
    have small := UInt32.toNat_ofNat_of_lt' (Nat.lt_succ_of_le within.2)
    have word := (Sample.word_literal read).2 ⟨within, small.symm⟩
    obtain ⟨event, decoded⟩ := takes.accepts n _ word
    obtain ⟨w, isWord, shows⟩ := takes.word n event decoded
    rw [← ((Sample.word_literal read).1 isWord).2] at shows
    exact ⟨event, congrArg some (Sample.decode_of_event decoded _), shows⟩
  · intro outside
    cases decoded : Sample.eventOfValue (of n) with
    | error reason => exact ⟨_, congrArg some (Sample.decode_of_reason decoded _)⟩
    | ok event =>
      obtain ⟨w, isWord, -⟩ := takes.word n event decoded
      exact absurd ((Sample.word_literal read).1 isWord).1 outside

end Cursor

namespace Dump

open Document Sample

inductive Judged (field : WholeField) (l : Literal) (outcome : Except Fault Dump) : Prop
  | accepted {dump : Dump} (within : l.Within field.maximum) (h : outcome = .ok dump)
    (shown : field.shown? dump = some l.significand)
  | unread {fault : Json.Fault} (outside : ¬l.Within field.maximum)
    (setup : field.sample? = none ∨ l.number? = none) (h : outcome = .error (.json fault))
  | refused {dump : Dump} {index : Nat} {reason : String} (outside : ¬l.Within field.maximum)
    (isSample : field.sample? = some index) (read : l.number? ≠ none) (h : outcome = .ok dump)
    (stops : dump.items[index]? = some (.error (.invalidSample index reason)))

/-- A document with the head of an accepted one is accepted. -/
theorem parse_of_sameHead {expr : Expr} {input : List UInt8} {document document' : Document}
    {dump : Dump} (judged : ofDocument document = .ok dump) (spelled : Spelled expr input)
    (h : layout.of? expr = some document') (same : SameHead document document') :
    ∃ dump', parse input = .ok dump' ∧ ofDocument document' = .ok dump' := by
  rw [parse_of_layout spelled h]
  rcases ofDocument_of_same same.version same.vendor same.product with
    ⟨fault, refused, -⟩ | ⟨_, dump', -, accepted, -⟩
  · rw [judged] at refused
    cases refused
  · exact ⟨dump', accepted, accepted⟩

/-- A field of a document is read with the document. -/
theorem judged_of_setup {field : WholeField} (setup : field.sample? = none) {l : Literal}
    {expr : Expr} {input : List UInt8} {document : Document} {dump : Dump}
    (judged : ofDocument document = .ok dump) (spelled : Spelled expr input)
    (accepts : l.Within field.maximum → ∃ document', layout.of? expr = some document' ∧
      SameHead document document' ∧ ∀ dump', ofDocument document' = .ok dump' →
        field.shown? dump' = some l.significand)
    (refuses : ¬l.Within field.maximum → layout.of? expr = none) :
    Judged field l (parse input) := by
  by_cases within : l.Within field.maximum
  · obtain ⟨document', read, same, shown⟩ := accepts within
    obtain ⟨dump', accepted, judged'⟩ := parse_of_sameHead judged spelled read same
    exact .accepted within accepted (shown dump' judged')
  · obtain ⟨fault, failed⟩ := json_of_layout spelled (refuses within)
    exact .unread within (.inl setup) failed

/-- A number that a dump shows for a sample comes from the sample, which is reached. -/
theorem decoded_of_shown {dump : Dump} {before behind : List Value} {raw : Value}
    (samples : dump.samples = before ++ raw :: behind) {number : SampleNumber} {n : Nat}
    (shown : (WholeField.sample number before.length).shown? dump = some n) :
    Items.Reached (Cursor.items (before ++ raw :: behind)) before.length ∧
      ∃ event, eventOfValue raw = .ok event ∧ number.ofEvent? event = some n := by
  obtain ⟨event, isEvent, shows⟩ := Option.bind_eq_some_iff.1 shown
  obtain ⟨item, isItem, same⟩ := Option.bind_eq_some_iff.1 isEvent
  rw [Dump.items, samples] at isItem
  have mem : (before ++ raw :: behind)[before.length]? = some raw := by simp
  cases item with
  | error fault => cases same
  | ok _ =>
    cases same
    exact ⟨Cursor.reached_of_item isItem, event, Cursor.decoded_of_item mem isItem, shows⟩

/-- A document with the number of the literal in its sample is accepted, and the sample is judged
when it is delivered. -/
theorem judged_of_number {number : SampleNumber} {of : Number → Value}
    (takes : TakesWord number of) {l : Literal} {n : Number} (read : l.number? = some n)
    {before behind : List Value} {dump : Dump}
    (samples : dump.samples = before ++ of n :: behind)
    (reached : Items.Reached (Cursor.items (before ++ of n :: behind)) before.length)
    (untimed : number = .time → ∀ raw ∈ before, isTime raw = false) :
    Judged (.sample number before.length) l (.ok dump) := by
  obtain ⟨accepts, refuses⟩ := Cursor.item_of_literal takes read reached untimed
  rw [← samples] at accepts refuses
  by_cases within : l.Within 4294967295
  · obtain ⟨event, isItem, shows⟩ := accepts within
    refine .accepted within rfl ?_
    rw [WholeField.shown?, Dump.items, isItem]
    exact shows
  · obtain ⟨reason, stops⟩ := refuses within
    have some' : l.number? ≠ none := by
      rw [read]
      exact Option.some_ne_none n
    exact .refused within rfl some' rfl stops

/-- The field of a sample is read when the sample is delivered. -/
theorem judged_of_sample {number : SampleNumber} {written sample : Expr → Expr}
    {front rest : List Expr} {other : Expr} {input input' : List UInt8} {dump : Dump} {n : Nat}
    (field : FieldIn "samples" 6 written) (inside : number.Holds sample)
    (spelled : Spelled (written (.array (front ++ sample other :: rest))) input)
    (valid : parse input = .ok dump)
    (shown : (WholeField.sample number front.length).shown? dump = some n)
    (first : (WholeField.sample number front.length).First dump) (l : Literal)
    (spelled' : Spelled (written (.array (front ++ sample (.number l) :: rest))) input') :
    Judged (.sample number front.length) l (parse input') := by
  obtain ⟨document, meaning, judged⟩ := layout_of_parse spelled valid
  obtain ⟨values, others⟩ := of_fieldIn field meaning
  rw [Expr.values?] at values
  obtain ⟨before, raw, behind, samples, isBefore, isRaw, isBehind⟩ := mapM_middle.1 values
  rw [← (ofDocument_eq_ok judged).2.2.2] at samples
  rw [← length_of_mapM isBefore] at shown first ⊢
  obtain ⟨reached, event, decoded, shows⟩ := decoded_of_shown samples shown
  obtain ⟨of, takes, literal⟩ :=
    @takesWord_of_holds _ _ _ (nestingLimit - 4) _ _ _ inside isRaw decoded shows
  have value : (sample (.number l)).value? (nestingLimit - 2) = l.number?.map of := literal l
  have replaced : layout.of? (written (.array (front ++ sample (.number l) :: rest))) =
      l.number?.map fun m => { document with samples := before ++ of m :: behind } := by
    rw [others, Expr.values?, mapM_around isBefore isBehind, value, Option.map_map, Option.map_map]
    rfl
  cases read : l.number? with
  | none =>
    rw [read] at replaced
    obtain ⟨fault, failed⟩ := json_of_layout spelled' replaced
    refine .unread (fun within => ?_) (.inr read) failed
    exact WholeField.number_of_within (.sample number before.length) within read
  | some m =>
    rw [read] at replaced
    obtain ⟨dump', accepted, judged'⟩ := parse_of_sameHead judged spelled' replaced ⟨rfl, rfl, rfl⟩
    rw [accepted]
    refine judged_of_number takes read (ofDocument_eq_ok judged').2.2.2
      (Cursor.reached_of_same_front reached) ?_
    rintro rfl
    have untimed : ∀ raw ∈ dump.samples.take before.length, isTime raw = false := first
    rwa [samples, List.take_left] at untimed

theorem judged_of_holds {field : WholeField} {written : Expr → Expr} {other : Expr}
    {input input' : List UInt8} {dump : Dump} {n : Nat} (holds : field.Holds written)
    (spelled : Spelled (written other) input) (valid : parse input = .ok dump)
    (shown : field.shown? dump = some n) (first : field.First dump) (l : Literal)
    (spelled' : Spelled (written (.number l)) input') : Judged field l (parse input') := by
  cases holds with
  | diveTime h =>
    obtain ⟨document, meaning, judged⟩ := layout_of_parse spelled valid
    obtain ⟨accepts, refuses⟩ := diveTime_read h meaning l
    refine judged_of_setup rfl judged spelled' (fun within => ?_) refuses
    obtain ⟨document', read, same, value⟩ := accepts within
    refine ⟨document', read, same, fun dump' judged' => ?_⟩
    rw [WholeField.shown?, (ofDocument_eq_ok judged').2.2.1, value]
  | date h inside =>
    obtain ⟨document, meaning, judged⟩ := layout_of_parse spelled valid
    obtain ⟨accepts, refuses⟩ := dateTime_read h inside meaning l
    refine judged_of_setup rfl judged spelled' (fun within => ?_) refuses
    obtain ⟨document', read, same, value⟩ := accepts within
    refine ⟨document', read, same, fun dump' judged' => ?_⟩
    rw [WholeField.shown?, (ofDocument_eq_ok judged').1, value]
  | sample front rest h inside =>
    exact judged_of_sample h inside spelled valid shown first l spelled'

section

variable {field : WholeField} {l : Literal} {outcome : Except Fault Dump}

theorem Judged.within_of_shown (judged : Judged field l outcome) {dump : Dump} {n : Nat}
    (h : outcome = .ok dump) (shown : field.shown? dump = some n) :
    l.Within field.maximum ∧ n = l.significand := by
  rcases judged with ⟨within, accepted, shown'⟩ | ⟨-, -, failed⟩ |
    ⟨-, isSample, -, accepted, stops⟩
  · rw [h] at accepted
    cases accepted
    rw [shown] at shown'
    exact ⟨within, Option.some.inj shown'⟩
  · rw [h] at failed
    cases failed
  · rw [h] at accepted
    cases accepted
    cases field with
    | diveTime | date => cases isSample
    | sample number index =>
      cases isSample
      rw [WholeField.shown?, stops] at shown
      cases shown

theorem Judged.json_of_unread (judged : Judged field l outcome)
    (outside : ¬l.Within field.maximum) (unread : field.sample? = none ∨ l.number? = none) :
    ∃ fault, outcome = .error (.json fault) := by
  rcases judged with ⟨within, -, -⟩ | ⟨-, -, failed⟩ | ⟨-, isSample, read, -, -⟩
  · exact absurd within outside
  · exact ⟨_, failed⟩
  · rcases unread with setup | none
    · rw [isSample] at setup
      cases setup
    · exact absurd none read

theorem Judged.invalid_of_sample (judged : Judged field l outcome)
    (outside : ¬l.Within field.maximum) (read : l.number? ≠ none) {index : Nat}
    (h : field.sample? = some index) : ∃ dump reason, outcome = .ok dump ∧
      dump.items[index]? = some (.error (.invalidSample index reason)) := by
  rcases judged with ⟨within, -, -⟩ | ⟨-, setup | none, -⟩ | ⟨-, isSample, -, accepted, stops⟩
  · exact absurd within outside
  · rw [h] at setup
    cases setup
  · exact absurd none read
  · rw [h] at isSample
    cases isSample
    exact ⟨_, _, accepted, stops⟩

end

/-- Whatever literal is written for a whole number of a dump that is otherwise valid, the dump has
that number there, or the literal is not made of digits alone or above the greatest number of the
field. Then it is refused with the document, or, if it can be read as a number at all, with the
sample that it stands in; a literal far above the numbers of binary64 cannot. Nothing is wrapped,
rounded or cut off. -/
theorem whole_fields_exact (field : WholeField) (written : Expr → Expr)
    (holds : field.Holds written) (other : Expr) (input : List UInt8) (dump : Dump)
    (spelled : Spelled (written other) input) (valid : parse input = .ok dump) (n : Nat)
    (shown : field.shown? dump = some n) (first : field.First dump) (l : Literal)
    (input' : List UInt8) (spelled' : Spelled (written (.number l)) input') :
    ((∃ dump' n', parse input' = .ok dump' ∧ field.shown? dump' = some n') ↔
      l.Bare ∧ l.significand ≤ field.maximum) ∧
    (∀ dump' n', parse input' = .ok dump' → field.shown? dump' = some n' →
      l.numerator = n' * l.denominator) ∧
    (¬(l.Bare ∧ l.significand ≤ field.maximum) → field.sample? = none ∨ l.number? = none →
      ∃ fault, parse input' = .error (.json fault)) ∧
    (¬(l.Bare ∧ l.significand ≤ field.maximum) → l.number? ≠ none →
      ∀ index, field.sample? = some index → ∃ dump' reason, parse input' = .ok dump' ∧
        dump'.items[index]? = some (.error (.invalidSample index reason))) ∧
    (l.FarTooLarge → ∃ fault, parse input' = .error (.json fault)) ∧
    (((twoTo 64 * l.denominator : Nat) : Int) < l.numerator ∨
        l.numerator < -((twoTo 63 * l.denominator : Nat) : Int) →
      ∀ dump', parse input' = .ok dump' → field.shown? dump' = none) := by
  have judged := judged_of_holds holds spelled valid shown first l spelled'
  have exact' (dump' : Dump) (n' : Nat) (accepted : parse input' = .ok dump')
      (shown' : field.shown? dump' = some n') :
      l.Within field.maximum ∧ n' = l.significand ∧ l.numerator = n' * l.denominator := by
    obtain ⟨within, same⟩ := judged.within_of_shown accepted shown'
    obtain ⟨numerator, denominator⟩ := within.1.fraction
    refine ⟨within, same, ?_⟩
    rw [numerator, denominator, same, Int.natCast_one, Int.mul_one]
  refine ⟨⟨?_, ?_⟩, ?_, judged.json_of_unread, ?_, ?_, ?_⟩
  · rintro ⟨dump', n', accepted, shown'⟩
    exact (exact' dump' n' accepted shown').1
  · intro within
    rcases judged with ⟨-, accepted, shown'⟩ | ⟨outside, -, -⟩ | ⟨outside, -, -, -, -⟩
    · exact ⟨_, _, accepted, shown'⟩
    · exact absurd within outside
    · exact absurd within outside
  · intro dump' n' accepted shown'
    exact (exact' dump' n' accepted shown').2.2
  · intro outside read index isSample
    exact judged.invalid_of_sample outside read isSample
  · intro large
    have unread := Literal.number_eq_none_of_huge large
    exact judged.json_of_unread (fun within => field.number_of_within within unread) (.inr unread)
  · intro far dump' accepted
    apply Option.eq_none_iff_forall_ne_some.2
    intro n' shown'
    obtain ⟨within, -, -⟩ := exact' dump' n' accepted shown'
    obtain ⟨numerator, denominator⟩ := within.1.fraction
    have small := Nat.lt_of_le_of_lt within.2 field.maximum_lt
    have order : twoTo 63 < twoTo 64 := twoTo_lt (by decide)
    rw [numerator, denominator, Nat.mul_one, Nat.mul_one] at far
    omega

def thousand : Literal := ⟨false, 1, [0], [], some ⟨false, none, 2, []⟩, by decide⟩

/-- Above `2 ^ 1024`, but the product of its significand and its power of ten is rounded down to the
greatest number. -/
def justAbove : Literal :=
  ⟨false, 1, [7, 9, 7, 6, 9, 3, 1, 3, 4, 8, 6, 2, 3, 1, 5, 9, 1], [],
    some ⟨false, none, 2, [9, 1]⟩, by decide⟩

def timeItem (expr : Expr) : Expr := .array ((timeItems 7).set 1 expr)

def withTime (expr : Expr) : Expr := withSamples (.array ([] ++ timeItem expr :: []))

theorem holds_withTime : (WholeField.sample .time 0).Holds withTime :=
  .sample [] [] fieldIn_withSamples (.time (.item (by decide)))

theorem thousand_refused : ∃ input dump reason, Spelled (withTime (.number thousand)) input ∧
    parse input = .ok dump ∧ dump.items[0]? = some (.error (.invalidSample 0 reason)) := by
  have spelled : Spelled (withTime (oneDigit 7))
      ([] ++ Expr.print (withTime (oneDigit 7)) []) :=
    spelled_print (by decide +kernel) nofun nofun
  have spelled' : Spelled (withTime (.number thousand))
      ([] ++ Expr.print (withTime (.number thousand)) []) :=
    spelled_print (by decide +kernel) nofun nofun
  have read : (parse ([] ++ Expr.print (withTime (oneDigit 7)) [])).toOption.map
      (WholeField.sample .time 0).shown? = some (some 7) := by
    decide +kernel
  obtain ⟨dump, value, shown⟩ := Option.map_eq_some_iff.1 read
  have number : thousand.number? ≠ none := Option.isSome_iff_ne_none.1 (by decide +kernel)
  have scaled : ¬(thousand.Bare ∧ thousand.significand ≤ 4294967295) := by
    rintro ⟨bare, -⟩
    cases bare.unscaled
  obtain ⟨-, -, -, refused, -⟩ := whole_fields_exact (.sample .time 0) withTime holds_withTime _ _
    dump spelled (eq_ok_of_toOption value) 7 shown nofun thousand _ spelled'
  obtain ⟨dump', reason, accepted, stops⟩ := refused scaled number 0 rfl
  exact ⟨_, dump', reason, spelled', accepted, stops⟩

/-- A literal above all numbers of binary64 is not always refused with the document. -/
theorem justAbove_accepted :
    ((twoTo 1024 * justAbove.denominator : Nat) : Int) ≤ justAbove.numerator ∧
      ∃ input dump, Spelled (withTime (.number justAbove)) input ∧ parse input = .ok dump ∧
        dump.items[0]? = some (.error (.invalidSample 0
          "time value is not a millisecond offset: 1.7976931348623157e+308")) := by
  have spelled : Spelled (withTime (.number justAbove))
      ([] ++ Expr.print (withTime (.number justAbove)) []) :=
    spelled_print (by decide +kernel) nofun nofun
  have read : (parse ([] ++ Expr.print (withTime (.number justAbove)) [])).toOption.map
      (fun dump => ((Items.events dump.items).length, Items.fault? dump.items)) =
        some (0, some (.invalidSample 0
          "time value is not a millisecond offset: 1.7976931348623157e+308")) := by
    decide +kernel
  obtain ⟨dump, accepted, found⟩ := Option.map_eq_some_iff.1 read
  obtain ⟨none, fault⟩ := Prod.mk.inj found
  have first := Items.getElem_length_events dump.items
  rw [none, fault] at first
  exact ⟨by decide +kernel, _, dump, spelled, eq_ok_of_toOption accepted, first⟩

end Dump

end DiveTable
