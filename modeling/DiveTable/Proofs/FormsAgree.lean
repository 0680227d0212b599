import DiveTable.Proofs.SampleForms
import DiveTable.Proofs.SoundDocuments
import DiveTable.Proofs.StreamFaults

/-! # Dumps in either form

The document of a dump, its date and time, its samples and its deco stops are records, and each of
them may be an object or a list. Main statement: dumps that differ in that alone have the same
metadata and the same events up to the first fault, `Dump.forms_agree`. -/
namespace DiveTable

open Json

namespace Document

def forms : List FieldForm :=
  [⟨"format_version", required⟩, ⟨"vendor", required⟩, ⟨"product", required⟩,
    ⟨"datetime", (· = .null)⟩, ⟨"max_depth", (· = .null)⟩, ⟨"dive_time", (· = .null)⟩,
    ⟨"samples", (· = .array [])⟩]

def dateTimeForms : List FieldForm :=
  [⟨"year", required⟩, ⟨"month", required⟩, ⟨"day", required⟩, ⟨"hour", IsZero⟩,
    ⟨"minute", IsZero⟩, ⟨"second", IsZero⟩]

/-- A document with a record in another form, at any places and in any combination. -/
inductive Recoded : Expr → Expr → Prop
  | refl (expr : Expr) : Recoded expr expr
  | symm {a b : Expr} (h : Recoded a b) : Recoded b a
  | trans {a b c : Expr} (h : Recoded a b) (h' : Recoded b c) : Recoded a c
  | document {a b : Expr} (h : OtherForm forms (fun _ => True) a b) : Recoded a b
  | dateTime {written : Expr → Expr} {a b : Expr} (field : FieldIn "datetime" 3 written)
    (h : OtherForm dateTimeForms (fun _ => True) a b) : Recoded (written a) (written b)
  | sample {written : Expr → Expr} {a b : Expr} (front rest : List Expr)
    (field : FieldIn "samples" 6 written)
    (h : OtherForm Sample.forms (fun expr => ∃ v, expr.value? (nestingLimit - 3) = some v) a b) :
    Recoded (written (.array (front ++ a :: rest))) (written (.array (front ++ b :: rest)))
  | stop {written sample : Expr → Expr} {a b : Expr} (front rest : List Expr)
    (field : FieldIn "samples" 6 written) (inside : LastIn "value" 1 sample)
    (h : OtherForm Sample.stopForms (fun expr => ∃ v, expr.value? (nestingLimit - 4) = some v)
      a b) :
    Recoded (written (.array (front ++ sample a :: rest)))
      (written (.array (front ++ sample b :: rest)))

/-! ## What a document tells -/

/-- A document without its samples, and their events. -/
def told (document : Document) : Document × List (Option Event) :=
  ({ document with samples := [] }, document.samples.map Sample.event?)

theorem takes_required {α σ τ : Type} {layout : Layout σ τ} {name : String} {isSet : σ → Bool}
    {of? : Expr → Option α} {set : α → σ → σ} (unset : isSet layout.empty = false) :
    layout.Takes (slot name isSet of? set) ⟨name, required⟩ :=
  ⟨rfl, unset, fun _ is => is.elim⟩

theorem takes_default {α σ τ : Type} {layout : Layout σ τ} {name : String} {isSet : σ → Bool}
    {of? : Expr → Option α} {set : α → σ → σ} {default : Expr → Prop} {x : α}
    (unset : isSet layout.empty = false) (read : ∀ expr, default expr → of? expr = some x)
    (idle : ∀ draft, isSet draft = false → layout.complete? (set x draft) = layout.complete? draft) :
    layout.Takes (slot name isSet of? set) ⟨name, default⟩ where
  name := rfl
  unset := unset
  idle := by
    intro expr is
    exact ⟨set x, congrArg (Option.map set) (read expr is), idle⟩

theorem takes_dateTime : List.Forall₂ dateTimeLayout.Takes dateTimeLayout.slots dateTimeForms := by
  have zero (expr : Expr) (is : IsZero expr) : expr.uint8? = some 0 := by
    obtain ⟨l, rfl, number⟩ := is
    show (l.number?.bind _).map Nat.toUInt8 = some 0
    rw [number]
    rfl
  refine .cons (takes_required rfl) <| .cons (takes_required rfl) <| .cons (takes_required rfl) <|
    .cons (takes_default rfl zero ?_) <| .cons (takes_default rfl zero ?_) <|
    .cons (takes_default rfl zero ?_) .nil
  all_goals
    rintro ⟨year, month, day, hour, minute, second⟩ unset
    simp only [Option.isSome_eq_false_iff, Option.isNone_iff_eq_none] at unset
    subst unset
    rfl

theorem takes_document : List.Forall₂ layout.Takes layout.slots forms := by
  refine .cons (takes_required rfl) <| .cons (takes_required rfl) <| .cons (takes_required rfl) <|
    .cons (takes_default rfl (x := none) ?_ ?_) <| .cons (takes_default rfl (x := none) ?_ ?_) <|
    .cons (takes_default rfl (x := none) ?_ ?_) <| .cons (takes_default rfl (x := []) ?_ ?_) .nil
  case refine_1 | refine_3 | refine_5 | refine_7 =>
    rintro _ rfl
    rfl
  all_goals
    rintro ⟨version, vendor, product, dateTime, maxDepth, diveTime, samples⟩ unset
    simp only [Option.isSome_eq_false_iff, Option.isNone_iff_eq_none] at unset
    subst unset
    rfl

/-- Samples with the same events are told alike. -/
theorem told_of_samples {written : Expr → Expr} (field : FieldIn "samples" 6 written)
    {a b : Expr} (same : (a.values? (nestingLimit - 2)).map (List.map Sample.event?) =
      (b.values? (nestingLimit - 2)).map (List.map Sample.event?)) :
    (layout.of? (written a)).map told = (layout.of? (written b)).map told := by
  have forth {a b : Expr} (same : (a.values? (nestingLimit - 2)).map (List.map Sample.event?) =
      (b.values? (nestingLimit - 2)).map (List.map Sample.event?)) {what : _}
      (h : (layout.of? (written a)).map told = some what) :
      (layout.of? (written b)).map told = some what := by
    obtain ⟨document, read, rfl⟩ := Option.map_eq_some_iff.1 h
    obtain ⟨values, others⟩ := of_fieldIn field read
    rw [values] at same
    obtain ⟨samples, values', same'⟩ := Option.map_eq_some_iff.1 same.symm
    rw [others b, values']
    exact congrArg some (Prod.ext rfl same')
  exact Option.ext fun what => ⟨forth same, forth same.symm⟩

/-- A sample counts by its event. -/
theorem events_middle {of? : Expr → Option Value} {a b : Expr}
    (same : (of? a).map Sample.event? = (of? b).map Sample.event?) (front rest : List Expr) :
    ((front ++ a :: rest).mapM of?).map (List.map Sample.event?) =
      ((front ++ b :: rest).mapM of?).map (List.map Sample.event?) := by
  have forth {a b : Expr} (same : (of? a).map Sample.event? = (of? b).map Sample.event?)
      {events : List (Option Event)}
      (h : ((front ++ a :: rest).mapM of?).map (List.map Sample.event?) = some events) :
      ((front ++ b :: rest).mapM of?).map (List.map Sample.event?) = some events := by
    obtain ⟨values, read, rfl⟩ := Option.map_eq_some_iff.1 h
    obtain ⟨before, v, behind, rfl, first, value, last⟩ := mapM_middle.1 read
    rw [value] at same
    obtain ⟨v', value', same'⟩ := Option.map_eq_some_iff.1 same.symm
    rw [mapM_middle.2 ⟨before, v', behind, rfl, first, value', last⟩]
    simp [same']
  exact Option.ext fun events => ⟨forth same, forth same.symm⟩

theorem optional_otherForm {fields : List FieldForm} {readable : Expr → Prop} {a b : Expr}
    (h : OtherForm fields readable a b) {α : Type} {of? : Expr → Option α} (same : of? a = of? b) :
    Expr.optional? of? a = Expr.optional? of? b := by
  cases h with
  | listed | extended => exact congrArg (Option.map some) same

theorem told_of_recoded {a b : Expr} (h : Recoded a b) :
    (layout.of? a).map told = (layout.of? b).map told := by
  -- on how the document was recoded; whatever is recoded, the document tells the same
  induction h with
  | refl expr => rfl
  | symm _ ih => exact ih.symm
  | trans _ _ ih ih' => exact ih.trans ih'
  | document h =>
    exact congrArg (Option.map told) (Layout.of_otherForm separate_document takes_document h)
  | dateTime field h =>
    have inside := Layout.of_otherForm separate_dateTime takes_dateTime h
    exact congrArg (Option.map told) (Layout.of_same separate_document slots_dateTime field
      (congrArg (Option.map _) (optional_otherForm h inside)))
  | sample front rest field h =>
    exact told_of_samples field (events_middle (Sample.events_of_otherForm h) front rest)
  | stop front rest field inside h =>
    exact told_of_samples field (events_middle (Sample.events_of_otherStop inside h) front rest)

/-! ## Lists of another length -/

theorem none_of_length {items : List Expr} (h : items.length < 3 ∨ 7 < items.length) :
    layout.of? (.array items) = none := by
  rcases h with short | long
  · have isSlot : layout.slots[2]? = some (slot "product" (fun d => d.product.isSome) Expr.text?
        fun x d => { d with product := some x }) := rfl
    refine Layout.ofItems_short separate_document.independent isSlot ⟨.string [], _, rfl⟩ ?_
      (Nat.le_of_lt_succ short) rfl
    rintro ⟨version, vendor, product, dateTime, maxDepth, diveTime, samples⟩ unset
    simp only [slot, Option.isSome_eq_false_iff, Option.isNone_iff_eq_none] at unset
    subst unset
    cases version with
    | none => rfl
    | some version => cases vendor <;> rfl
  · have many : layout.slots.length < items.length := long
    exact Layout.ofItems_long many layout.empty

theorem dateTime_none_of_length {items : List Expr} (h : items.length < 3 ∨ 6 < items.length) :
    dateTimeLayout.of? (.array items) = none := by
  rcases h with short | long
  · have isSlot : dateTimeLayout.slots[2]? = some (slot "day" (fun d => d.day.isSome) Expr.uint8?
        fun x d => { d with day := some x }) := rfl
    refine Layout.ofItems_short separate_dateTime.independent isSlot
      ⟨whole 1 [] (.inl rfl), _, rfl⟩ ?_ (Nat.le_of_lt_succ short) rfl
    rintro ⟨year, month, day, hour, minute, second⟩ unset
    simp only [slot, Option.isSome_eq_false_iff, Option.isNone_iff_eq_none] at unset
    subst unset
    cases year with
    | none => rfl
    | some year => cases month <;> rfl
  · have many : dateTimeLayout.slots.length < items.length := long
    exact Layout.ofItems_long many dateTimeLayout.empty

theorem none_of_dateTime {written : Expr → Expr} (field : FieldIn "datetime" 3 written)
    {items : List Expr} (h : items.length < 3 ∨ 6 < items.length) :
    layout.of? (written (.array items)) = none := by
  have refused : Expr.optional? dateTimeLayout.of? (.array items) = none :=
    congrArg (Option.map some) (dateTime_none_of_length h)
  exact Layout.of_refused separate_document slots_dateTime field (slot_refused refused)

end Document

namespace Sample

/-! ## Samples with the same events -/

theorem faulty_iff {before : List Value} {raw : Value} : Faulty before raw ↔
    event? raw = none ∨ ∃ previous current,
      ((before.map event?).filterMap (Option.bind · Event.time?)).getLast? = some previous ∧
        (event? raw).bind Event.time? = some current ∧ current < previous := by
  have refused : (∃ reason, eventOfValue raw = .error reason) ↔ event? raw = none := by
    unfold event?
    cases eventOfValue raw with
    | error reason => exact iff_of_true ⟨reason, rfl⟩ rfl
    | ok event => exact iff_of_false nofun nofun
  rw [Faulty, refused, List.filterMap_map]
  rfl

theorem FirstFault.congr {samples samples' : List Value}
    (same : samples.map event? = samples'.map event?) {k : Nat} (h : FirstFault samples k) :
    FirstFault samples' k := by
  have lengths : samples.length = samples'.length := by
    simpa using congrArg List.length same
  have faulty {i : Nat} {raw' : Value} (mem : samples'[i]? = some raw') :
      ∃ raw, samples[i]? = some raw ∧
        (Faulty (samples.take i) raw ↔ Faulty (samples'.take i) raw') := by
    have both : (samples.map event?)[i]? = (samples'.map event?)[i]? := congrArg (·[i]?) same
    rw [List.getElem?_map, List.getElem?_map, mem] at both
    obtain ⟨raw, mem', events⟩ := Option.map_eq_some_iff.1 both
    refine ⟨raw, mem', ?_⟩
    rw [faulty_iff, faulty_iff, events, List.map_take, List.map_take, same]
  constructor
  case within => exact lengths ▸ h.within
  case sound =>
    intro i raw' before mem
    obtain ⟨raw, mem', agree⟩ := faulty mem
    exact fun bad => h.sound i raw before mem' (agree.2 bad)
  case faulty =>
    intro raw' mem
    obtain ⟨raw, mem', agree⟩ := faulty mem
    exact agree.1 (h.faulty raw mem')

end Sample

namespace Cursor

/-- Samples with the same events are delivered alike, and stop at the same place. -/
theorem events_congr {samples samples' : List Value}
    (same : samples.map Sample.event? = samples'.map Sample.event?) :
    Items.events (items samples) = Items.events (items samples') ∧
      (Items.fault? (items samples)).map Fault.sample? =
        (Items.fault? (items samples')).map Fault.sample? := by
  have count := ((firstFault_events samples).congr same).unique (firstFault_events samples')
  have decoded (samples : List Value) :
      (samples.map Sample.event?).take (Items.events (items samples)).length =
        (Items.events (items samples)).map some := by
    have all := decodes_take samples (Nat.le_refl _)
    rw [List.take_length] at all
    have mapped := congrArg (List.map Except.toOption) all
    rw [List.map_map, List.map_map] at mapped
    rw [← List.map_take]
    exact mapped
  have place (samples : List Value) : (Items.fault? (items samples)).map Fault.sample? =
      if (Items.events (items samples)).length = samples.length then none
      else some (some (Items.events (items samples)).length) := by
    rcases end_or_fault samples with ⟨atEnd, none⟩ | ⟨raw, fault, mem, -, isFault, place⟩
    · rw [none, if_pos atEnd]
      rfl
    · have inside := (List.getElem?_eq_some_iff.1 mem).1
      rw [isFault, if_neg (Nat.ne_of_lt inside), ← place]
      rfl
  constructor
  · have events := decoded samples
    rw [same, count, decoded samples'] at events
    exact (List.map_injective_iff.2 (Option.some_injective Event) events).symm
  · have lengths : samples.length = samples'.length := by
      simpa using congrArg List.length same
    rw [place, place, count, lengths]

/-- A sample that is reached and stands for no event is refused in its place. -/
theorem refused_of_reached {samples : List Value} {i : Nat} {raw : Value}
    (mem : samples[i]? = some raw) (reached : Items.Reached (items samples) i)
    (h : ∀ event, Sample.eventOfValue raw ≠ .ok event) :
    ∃ reason, (items samples)[i]? = some (.error (.invalidSample i reason)) := by
  obtain ⟨delivered, -, length, isItem⟩ := item_of_reached mem reached
  rw [isItem, verdict_eq_decode (fun ms decoded => absurd decoded (h _)), length]
  cases decoded : Sample.eventOfValue raw with
  | ok event => exact absurd decoded (h event)
  | error reason => exact ⟨_, congrArg some (Sample.decode_of_reason decoded i)⟩

end Cursor

namespace Dump

open Document

/-- Dumps with the same metadata and the same events up to the first fault, which is in the same
place. -/
structure Alike (dump dump' : Dump) : Prop where
  device : dump.device = dump'.device
  version : dump.version = dump'.version
  dateTime : dump.dateTime? = dump'.dateTime?
  maxDepth : dump.maxDepth? = dump'.maxDepth?
  diveTime : dump.diveTime? = dump'.diveTime?
  count : dump.samples.length = dump'.samples.length
  events : Items.events dump.items = Items.events dump'.items
  fault : (Items.fault? dump.items).map Fault.sample? = (Items.fault? dump'.items).map Fault.sample?

/-- How reading ends: with dumps that are alike, with the same fault, or with a text that is no
document in both cases. -/
inductive Agree : Except Fault Dump → Except Fault Dump → Prop
  | accepted {dump dump' : Dump} (h : Alike dump dump') : Agree (.ok dump) (.ok dump')
  | refused (fault : Fault) : Agree (.error fault) (.error fault)
  | unread (fault fault' : Json.Fault) : Agree (.error (.json fault)) (.error (.json fault'))

theorem alike_of_told {document document' : Document} {dump dump' : Dump}
    (same : document.told = document'.told) (judged : ofDocument document = .ok dump)
    (judged' : ofDocument document' = .ok dump') (device : dump.device = dump'.device)
    (version : dump.version = dump'.version) : Alike dump dump' := by
  obtain ⟨head, events⟩ := Prod.mk.inj same
  obtain ⟨dateTime, maxDepth, diveTime, samples⟩ := ofDocument_eq_ok judged
  obtain ⟨dateTime', maxDepth', diveTime', samples'⟩ := ofDocument_eq_ok judged'
  rw [← samples, ← samples'] at events
  obtain ⟨delivered, fault⟩ := Cursor.events_congr events
  simp only [Document.mk.injEq] at head
  obtain ⟨-, -, -, sameDate, sameDepth, sameTime, -⟩ := head
  exact {
    device, version, fault
    dateTime := dateTime.trans (sameDate.trans dateTime'.symm)
    maxDepth := maxDepth.trans (sameDepth.trans maxDepth'.symm)
    diveTime := diveTime.trans (sameTime.trans diveTime'.symm)
    count := by simpa using congrArg List.length events
    events := delivered }

/-- Documents that tell the same are read and judged alike. -/
theorem agree_of_told {a b : Expr} {input input' : List UInt8} (spelled : Spelled a input)
    (spelled' : Spelled b input') (same : (layout.of? a).map told = (layout.of? b).map told) :
    Agree (parse input) (parse input') := by
  cases read : layout.of? a with
  | none =>
    rw [read] at same
    obtain ⟨fault, failed⟩ := json_of_layout spelled read
    obtain ⟨fault', failed'⟩ := json_of_layout spelled' (Option.map_eq_none_iff.1 same.symm)
    rw [failed, failed']
    exact .unread fault fault'
  | some document =>
    rw [read] at same
    obtain ⟨document', read', same⟩ := Option.map_eq_some_iff.1 same.symm
    have head := congrArg Prod.fst same.symm
    simp only [told, Document.mk.injEq] at head
    obtain ⟨version, vendor, product, -⟩ := head
    rw [parse_of_layout spelled read, parse_of_layout spelled' read']
    rcases ofDocument_of_same version vendor product with
      ⟨fault, refused, refused'⟩ | ⟨dump, dump', judged, judged', device, isVersion⟩
    · rw [refused, refused']
      exact .refused fault
    · rw [judged, judged']
      exact .accepted (alike_of_told same.symm judged judged' device isVersion)

theorem invalid_of_list {expr : Expr} {input : List UInt8} {dump : Dump} {samples : List Expr}
    (spelled : Spelled expr input) (accepted : parse input = .ok dump)
    (field : HasField "samples" 6 expr (.array samples)) {i : Nat} {items : List Expr}
    (mem : samples[i]? = some (.array items)) (h : items.length < 1 ∨ 2 < items.length)
    (reached : Items.Reached dump.items i) :
    ∃ reason, dump.items[i]? = some (.error (.invalidSample i reason)) := by
  obtain ⟨raw, read, stands⟩ := sample_of_parse spelled accepted field mem
  refine Cursor.refused_of_reached stands reached fun event decoded => ?_
  obtain ⟨values, each, rfl⟩ := Option.map_eq_some_iff.1 read
  have length := length_of_mapM each
  have bounds := Sample.length_of_decoded decoded
  omega

theorem invalid_of_stop {expr sample : Expr} {input : List UInt8} {dump : Dump}
    {samples : List Expr} (spelled : Spelled expr input) (accepted : parse input = .ok dump)
    (field : HasField "samples" 6 expr (.array samples)) {i : Nat}
    (mem : samples[i]? = some sample) {items : List Expr}
    (isStop : IsSample "deco" sample (.array items)) (h : items.length < 1 ∨ 3 < items.length)
    (reached : Items.Reached dump.items i) :
    ∃ reason, dump.items[i]? = some (.error (.invalidSample i reason)) := by
  obtain ⟨raw, read, stands⟩ := sample_of_parse spelled accepted field mem
  refine Cursor.refused_of_reached stands reached fun event decoded => ?_
  obtain ⟨⟨kind, value⟩, inner, rfl, isValue, decoded⟩ := Sample.written_eq_ok isStop read decoded
  rw [Sample.event_deco] at decoded
  cases inner with
  | zero => cases isValue
  | succ inner =>
    obtain ⟨values, each, rfl⟩ := Option.map_eq_some_iff.1 isValue
    have length := length_of_mapM each
    have bounds := Sample.length_of_stop decoded
    omega

/-- A record of a dump may be an object or a list, and an object may have other members besides:
the metadata and the events up to the first fault stay the same. A list with fewer items than
fields that a record must have, or with more than it has at all, is refused, in the document with
the text and in a sample with the sample. -/
theorem forms_agree :
    (∀ a b input input', Recoded a b → Spelled a input → Spelled b input' →
      Agree (parse input) (parse input')) ∧
    (∀ items input, Spelled (.array items) input → items.length < 3 ∨ 7 < items.length →
      ∃ fault, parse input = .error (.json fault)) ∧
    (∀ written items input, FieldIn "datetime" 3 written →
      Spelled (written (.array items)) input → items.length < 3 ∨ 6 < items.length →
        ∃ fault, parse input = .error (.json fault)) ∧
    ∀ expr input dump samples i, Spelled expr input → parse input = .ok dump →
      HasField "samples" 6 expr (.array samples) → Items.Reached dump.items i →
        (∀ items, samples[i]? = some (.array items) → items.length < 1 ∨ 2 < items.length →
          ∃ reason, dump.items[i]? = some (.error (.invalidSample i reason))) ∧
        ∀ sample items, samples[i]? = some sample → IsSample "deco" sample (.array items) →
          items.length < 1 ∨ 3 < items.length →
            ∃ reason, dump.items[i]? = some (.error (.invalidSample i reason)) := by
  refine ⟨?_, ?_, ?_, ?_⟩
  · intro a b input input' recoded spelled spelled'
    exact agree_of_told spelled spelled' (told_of_recoded recoded)
  · intro items input spelled h
    exact json_of_layout spelled (none_of_length h)
  · intro written items input field spelled h
    exact json_of_layout spelled (none_of_dateTime field h)
  · intro expr input dump samples i spelled accepted field reached
    constructor
    · intro items mem h
      exact invalid_of_list spelled accepted field mem h reached
    · intro sample items mem isStop h
      exact invalid_of_stop spelled accepted field mem isStop h reached

/-! ## A dive in both forms -/

def stopMembers : List (List UInt8 × Expr) := [(bytesOf "status", .string (bytesOf "ndl"))]

def stopList : Expr := .array [.string (bytesOf "ndl")]

def withStop (stop : Expr) : Expr :=
  .object ([(bytesOf "type", .string (bytesOf "deco"))] ++ (bytesOf "value", stop) :: [])

def stopSample : Expr := .array [.string (bytesOf "deco"), stopList]

def depthSample : Expr := .array ((sampleMembers "depth").map Prod.snd)

def dayList : Expr := .array (day.map Prod.snd)

def withDate (samples date : Expr) : Expr :=
  .object (plainMembers.take 3 ++ (bytesOf "datetime", date) :: [(bytesOf "samples", samples)])

def objectDive : Expr :=
  withSamples (.array [.object (sampleMembers "depth"), withStop (.object stopMembers)])

def listDive : Expr :=
  .array [.string (bytesOf "1.0.0"), .string (bytesOf "Divesoft"), .string (bytesOf "Freedom"),
    dayList, .null, .null, .array [depthSample, stopSample]]

theorem fieldIn_withDate (samples : Expr) : FieldIn "datetime" 3 (withDate samples) :=
  .member _ _ (tokenText_eq_some.1 (by decide +kernel))

theorem recoded_listDive : Recoded objectDive listDive := by
  have value : LastIn "value" 1 withStop :=
    .member _ [] (tokenText_eq_some.1 (by decide +kernel)) nofun
  have status : Listed Sample.stopForms stopMembers [.string (bytesOf "ndl")] :=
    .first (named_of_text (by decide +kernel)) (.done _)
  have depth : Listed Sample.forms (sampleMembers "depth")
      ((sampleMembers "depth").map Prod.snd) :=
    .first (named_of_text (by decide +kernel)) <|
      .first (named_of_text (by decide +kernel)) (.done _)
  have deco : Listed Sample.forms
      [(bytesOf "type", .string (bytesOf "deco")), (bytesOf "value", stopList)]
      [.string (bytesOf "deco"), stopList] :=
    .first (named_of_text (by decide +kernel)) <|
      .first (named_of_text (by decide +kernel)) (.done _)
  have date : Listed dateTimeForms day (day.map Prod.snd) :=
    .first (named_of_text (by decide +kernel)) <| .first (named_of_text (by decide +kernel)) <|
      .first (named_of_text (by decide +kernel)) (.done _)
  have document : Listed forms
      (plainMembers.take 3 ++ [(bytesOf "datetime", dayList),
        (bytesOf "samples", .array [depthSample, stopSample])])
      [.string (bytesOf "1.0.0"), .string (bytesOf "Divesoft"), .string (bytesOf "Freedom"),
        dayList, .null, .null, .array [depthSample, stopSample]] :=
    .first (named_of_text (by decide +kernel)) <| .first (named_of_text (by decide +kernel)) <|
      .first (named_of_text (by decide +kernel)) <| .first (named_of_text (by decide +kernel)) <|
      .default rfl <| .default rfl <| .first (named_of_text (by decide +kernel)) (.done _)
  have stopped : Recoded objectDive
      (withSamples (.array ([.object (sampleMembers "depth")] ++ withStop stopList :: []))) :=
    .stop [.object (sampleMembers "depth")] [] fieldIn_withSamples value (.listed status)
  have listed : Recoded
      (withSamples (.array ([.object (sampleMembers "depth")] ++ withStop stopList :: [])))
      (withSamples (.array ([.object (sampleMembers "depth")] ++ stopSample :: []))) :=
    .sample [.object (sampleMembers "depth")] [] fieldIn_withSamples (.listed deco)
  have first : Recoded
      (withSamples (.array ([] ++ .object (sampleMembers "depth") :: [stopSample])))
      (withSamples (.array ([] ++ depthSample :: [stopSample]))) :=
    .sample [] [stopSample] fieldIn_withSamples (.listed depth)
  have dated : Recoded (withDate (.array [depthSample, stopSample]) (.object day))
      (withDate (.array [depthSample, stopSample]) dayList) :=
    .dateTime (fieldIn_withDate _) (.listed date)
  exact stopped.trans (listed.trans (first.trans (dated.trans (.document (.listed document)))))

def plainText (expr : Expr) : List UInt8 := [] ++ expr.print []

theorem spelled_plainText {expr : Expr} (h : expr.quotable = true) :
    Spelled expr (plainText expr) := spelled_print h nofun nofun

theorem isSample_withStop (stop : Expr) : IsSample "deco" (withStop stop) stop := by
  have key : tokenText? (bytesOf "value") = some "value" := by decide +kernel
  have isType : Named "type" (bytesOf "type", .string (bytesOf "deco")) :=
    named_of_text (by decide +kernel)
  have isValue : Named "value" (bytesOf "value", stop) := tokenText_eq_some.1 key
  have last : ∀ m ∈ [(bytesOf "value", stop)], ¬Named "type" m := by
    intro m mem named
    obtain rfl := List.mem_singleton.1 mem
    exact absurd (named_unique named isValue) (by decide)
  exact ⟨⟨_, tokenText_eq_some.1 (by decide +kernel), .member [] _ isType last⟩,
    .member _ [] isValue nofun⟩

theorem hasField_withSamples (list : Expr) : HasField "samples" 6 (withSamples list) list := by
  have key : tokenText? (bytesOf "samples") = some "samples" := by decide +kernel
  exact .member _ [] (tokenText_eq_some.1 key) nofun

theorem alike_listDive :
    (∃ dump dump', parse (plainText objectDive) = .ok dump ∧
      parse (plainText listDive) = .ok dump' ∧ Alike dump dump') ∧
    (∃ fault, parse (plainText (.array [])) = .error (.json fault)) ∧
    (∃ fault, parse (plainText (withDate (.array []) (.array []))) = .error (.json fault)) ∧
    ∃ dump dump' reason reason',
      parse (plainText (withSamples (.array [.array []]))) = .ok dump ∧
      dump.items[0]? = some (.error (.invalidSample 0 reason)) ∧
      parse (plainText (withSamples (.array [withStop (.array [])]))) = .ok dump' ∧
      dump'.items[0]? = some (.error (.invalidSample 0 reason')) := by
  obtain ⟨agree, document, dateTime, sample⟩ := forms_agree
  have objects : Spelled objectDive (plainText objectDive) := spelled_plainText (by decide +kernel)
  have lists : Spelled listDive (plainText listDive) := spelled_plainText (by decide +kernel)
  have read : (parse (plainText objectDive)).toOption.isSome = true := by decide +kernel
  have list : Spelled (withSamples (.array [.array []]))
      (plainText (withSamples (.array [.array []]))) := spelled_plainText (by decide +kernel)
  have stop : Spelled (withSamples (.array [withStop (.array [])]))
      (plainText (withSamples (.array [withStop (.array [])]))) :=
    spelled_plainText (by decide +kernel)
  have readList : (parse (plainText (withSamples (.array [.array []])))).toOption.isSome = true := by
    decide +kernel
  have readStop : (parse (plainText (withSamples (.array [withStop (.array [])])))).toOption.isSome =
      true := by
    decide +kernel
  refine ⟨?_, ?_, ?_, ?_⟩
  · obtain ⟨dump, value⟩ := Option.isSome_iff_exists.1 read
    have accepted := eq_ok_of_toOption value
    have both := agree _ _ _ _ recoded_listDive objects lists
    rw [accepted] at both
    generalize parse (plainText listDive) = outcome at both ⊢
    cases both with
    | accepted alike => exact ⟨dump, _, accepted, rfl, alike⟩
  · exact document [] _ (spelled_plainText (by decide +kernel)) (.inl (by decide))
  · exact dateTime _ [] _ (fieldIn_withDate (.array [])) (spelled_plainText (by decide +kernel))
      (.inl (by decide))
  · obtain ⟨dump, value⟩ := Option.isSome_iff_exists.1 readList
    obtain ⟨dump', value'⟩ := Option.isSome_iff_exists.1 readStop
    have accepted := eq_ok_of_toOption value
    have accepted' := eq_ok_of_toOption value'
    have lists := sample _ _ dump _ 0 list accepted (hasField_withSamples _) nofun
    have stops := sample _ _ dump' _ 0 stop accepted' (hasField_withSamples _) nofun
    obtain ⟨reason, invalid⟩ := lists.1 [] rfl (.inl (by decide))
    obtain ⟨reason', invalid'⟩ := stops.2 _ [] rfl (isSample_withStop _) (.inl (by decide))
    exact ⟨dump, dump', reason, reason', accepted, invalid, accepted', invalid'⟩

end Dump

end DiveTable
