import DiveTable.Proofs.DumpTable

/-! # What samples stand for

What a sample stands for, told by the values it is made of: a kind and a value, and in the value
of a deco sample a status with a time and a depth. A sample is decoded to the event it stands for,
and refused with its position if it stands for none. -/
namespace DiveTable

open Json

namespace Sample

def IsWord (v : Value) (w : UInt32) : Prop := ∃ n, v = .number (.natural n) ∧ n.toNat = w.toNat

def IsReading (v : Value) (x : Binary64) : Prop := ∃ n, v = .number n ∧ x = n.toBinary64

/-- What a field has to be, or what it counts for where it is missing. -/
def Given {α : Type} (is : Value → α → Prop) (default : α) : Option Value → α → Prop
  | none, a => a = default
  | some v, a => is v a

inductive Fields : Value → String → Value → Prop
  | object {members : Members} {kind : String}
      (named : members.lookup "type" = some (.string kind)) :
      Fields (.object members) kind ((members.lookup "value").getD .null)
  | alone (kind : String) : Fields (.array [.string kind]) kind .null
  | pair (kind : String) (value : Value) : Fields (.array [.string kind, value]) kind value

inductive DecoFields : Value → String → Option Value → Option Value → Prop
  | object {members : Members} {status : String}
      (named : members.lookup "status" = some (.string status)) :
      DecoFields (.object members) status (members.lookup "time") (members.lookup "depth")
  | list (status : String) {rest : List Value} (short : rest.length ≤ 2) :
      DecoFields (.array (.string status :: rest)) status rest[0]? rest[1]?

def statusNames : List (String × DecoStatus) :=
  [("ndl", .ndl), ("decostop", .decoStop), ("safetystop", .safetyStop), ("deepstop", .ndl)]

def smallLetters (name : String) : String := String.ofList (name.toList.map Char.toLower)

inductive StandsFor : Value → Event → Prop
  | time {raw value : Value} {ms : UInt32} (fields : Fields raw "time" value)
      (word : IsWord value ms) : StandsFor raw (.time ms)
  | reading {raw value : Value} {q : Quantity} {x : Binary64} (fields : Fields raw q.name value)
      (number : IsReading value x) : StandsFor raw (.reading q x)
  | deco {raw value : Value} {name : String} {time depth : Option Value} {state : Deco}
      (fields : Fields raw "deco" value) (parts : DecoFields value name time depth)
      (status : (smallLetters name, state.status) ∈ statusNames)
      (seconds : Given IsWord 0 time state.seconds)
      (metres : Given IsReading .zero depth state.depth) : StandsFor raw (.deco state)
  | other {raw value : Value} {kind : String} (fields : Fields raw kind value)
      (unconsumed : kind ∉ consumedKinds) : StandsFor raw (.other kind)

theorem ofValue_eq_ok {raw : Value} {sample : Sample} :
    ofValue raw = .ok sample ↔ Fields raw sample.kind sample.value := by
  constructor
  · intro h
    obtain ⟨kind, value⟩ := fields_of_ofValue h
    cases raw with
    | object members =>
      rw [value]
      exact .object kind
    | array items =>
      rw [value]
      rcases items with _ | ⟨first, _ | ⟨second, _ | ⟨third, rest⟩⟩⟩
      · cases kind
      · obtain rfl : first = .string sample.kind := Option.some.inj kind
        exact .alone _
      · obtain rfl : first = .string sample.kind := Option.some.inj kind
        exact .pair _ _
      · obtain ⟨_, -, tooMany⟩ := bind_eq_ok h
        cases tooMany
    | null | boolean | number | string => cases kind
  · obtain ⟨kind, value⟩ := sample
    rintro (named | - | -)
    · unfold ofValue
      dsimp only at named ⊢
      rw [named]
      rfl
    · rfl
    · rfl

theorem word_eq_ok {v : Value} {w : UInt32} : word v = .ok w ↔ IsWord v w := by
  constructor
  · intro h
    unfold word at h
    split at h
    · split at h
      · rename_i n small
        cases h
        exact ⟨n, rfl, by simp [Nat.mod_eq_of_lt small]⟩
      · cases h
    · cases h
    · cases h
  · rintro ⟨n, rfl, same⟩
    have small : n.toNat < UInt32.size := same ▸ w.toNat_lt_size
    rw [word, if_pos small]
    refine congrArg Except.ok (UInt32.toNat_inj.1 ?_)
    rw [← same]
    simp [Nat.mod_eq_of_lt small]

theorem binary64_eq_ok {v : Value} {x : Binary64} : binary64 v = .ok x ↔ IsReading v x := by
  cases v with
  | number n => simp [binary64, IsReading, eq_comm]
  | null | boolean | string | array | object => simp [binary64, IsReading]

theorem orDefault_eq_ok {α : Type} {read : Value → Except Mismatch α} {is : Value → α → Prop}
    (reads : ∀ v a, read v = .ok a ↔ is v a) {default : α} {field : Option Value} {a : α} :
    orDefault read default field = .ok a ↔ Given is default field a := by
  cases field with
  | none => simp [orDefault, Given, eq_comm]
  | some v => exact reads v a

theorem decoOfValue_eq_ok {v : Value} {deco : DecoSample} :
    decoOfValue v = .ok deco ↔ ∃ time depth, DecoFields v deco.status time depth ∧
      Given IsWord 0 time deco.seconds ∧ Given IsReading .zero depth deco.depth := by
  constructor
  · intro h
    cases v with
    | array items =>
      cases items with
      | nil => cases h
      | cons first rest =>
        obtain ⟨status, named, timed⟩ := bind_eq_ok h
        obtain ⟨seconds, time, deep⟩ := bind_eq_ok timed
        obtain ⟨metres, depth, counted⟩ := bind_eq_ok deep
        obtain rfl := text_eq_ok named
        split at counted
        · rename_i short
          cases counted
          exact ⟨_, _, .list _ short, (orDefault_eq_ok fun _ _ => word_eq_ok).1 time,
            (orDefault_eq_ok fun _ _ => binary64_eq_ok).1 depth⟩
        · cases counted
    | object members =>
      obtain ⟨metres, depth, h⟩ := bind_eq_ok h
      split at h
      · obtain ⟨_, -, missing⟩ := bind_eq_ok h
        cases missing
      · rename_i found
        obtain ⟨status, named, timed⟩ := bind_eq_ok h
        obtain ⟨seconds, time, whole⟩ := bind_eq_ok timed
        obtain rfl := text_eq_ok named
        cases whole
        exact ⟨_, _, .object found, (orDefault_eq_ok fun _ _ => word_eq_ok).1 time,
          (orDefault_eq_ok fun _ _ => binary64_eq_ok).1 depth⟩
    | null | boolean | number | string => cases h
  · obtain ⟨status, seconds, metres⟩ := deco
    rintro ⟨time, depth, parts, isTime, isDepth⟩
    have readTime := (orDefault_eq_ok fun _ _ => word_eq_ok).2 isTime
    have readDepth := (orDefault_eq_ok fun _ _ => binary64_eq_ok).2 isDepth
    cases parts with
    | object named =>
      simp [decoOfValue, readTime, readDepth, named, text, bind, Except.bind]
    | list _ short =>
      simp [decoOfValue, readTime, readDepth, short, text, bind, Except.bind]

theorem status_eq_some {name : String} {status : DecoStatus} :
    status? name = some status ↔ (name, status) ∈ statusNames := by
  unfold status?
  split <;> simp_all [statusNames, eq_comm]

theorem timeEvent_iff {v : Value} {event : Event} :
    timeEvent v = .ok event ↔ ∃ ms, IsWord v ms ∧ event = .time ms := by
  constructor
  · intro h
    unfold timeEvent at h
    split at h
    · rename_i n
      split at h
      · rename_i small
        refine ⟨n.toUInt32, word_eq_ok.1 ?_, (Except.ok.inj h).symm⟩
        rw [word, if_pos small]
      · cases h
    · cases h
  · rintro ⟨ms, isWord, rfl⟩
    have read := word_eq_ok.2 isWord
    obtain ⟨n, rfl, same⟩ := isWord
    have small : n.toNat < UInt32.size := same ▸ ms.toNat_lt_size
    rw [word, if_pos small] at read
    rw [timeEvent, if_pos small, Except.ok.inj read]

theorem readingEvent_iff {q : Quantity} {v : Value} {event : Event} :
    readingEvent q v = .ok event ↔ ∃ x, IsReading v x ∧ event = .reading q x := by
  constructor
  · intro h
    obtain ⟨n, rfl, same⟩ := readingEvent_eq_ok h
    exact ⟨_, ⟨n, rfl, rfl⟩, same⟩
  · rintro ⟨x, ⟨n, rfl, rfl⟩, rfl⟩
    rfl

theorem decoEvent_iff {v : Value} {event : Event} :
    decoEvent v = .ok event ↔ ∃ name time depth state, DecoFields v name time depth ∧
      (smallLetters name, state.status) ∈ statusNames ∧ Given IsWord 0 time state.seconds ∧
      Given IsReading .zero depth state.depth ∧ event = .deco state := by
  constructor
  · intro h
    unfold decoEvent at h
    split at h
    · cases h
    · rename_i deco shaped
      obtain ⟨time, depth, parts, seconds, metres⟩ := decoOfValue_eq_ok.1 shaped
      dsimp only at h
      split at h
      · cases h
      · rename_i status known
        exact ⟨deco.status, time, depth, ⟨status, deco.seconds, deco.depth⟩, parts,
          status_eq_some.1 known, seconds, metres, (Except.ok.inj h).symm⟩
  · rintro ⟨name, time, depth, ⟨status, seconds, metres⟩, parts, known, isTime, isDepth, rfl⟩
    have shaped : decoOfValue v = .ok ⟨name, seconds, metres⟩ :=
      decoOfValue_eq_ok.2 ⟨time, depth, parts, isTime, isDepth⟩
    have letters : status? (String.ofList (name.toList.map Char.toLower)) = some status :=
      status_eq_some.2 known
    unfold decoEvent
    rw [shaped]
    dsimp only
    rw [letters]

theorem eventOfValue_of_fields {raw value : Value} {kind : String} (h : Fields raw kind value) :
    eventOfValue raw = Sample.event ⟨kind, value⟩ := by
  have shaped : ofValue raw = .ok ⟨kind, value⟩ := ofValue_eq_ok.2 h
  rw [eventOfValue, shaped]

theorem event_time (value : Value) : Sample.event ⟨"time", value⟩ = timeEvent value := if_pos rfl

theorem event_deco (value : Value) : Sample.event ⟨"deco", value⟩ = decoEvent value :=
  (if_neg (show "deco" ≠ "time" by decide)).trans (if_pos rfl)

theorem event_reading (q : Quantity) (value : Value) :
    Sample.event ⟨q.name, value⟩ = readingEvent q value := by
  have notDeco : q.name ≠ "deco" := by cases q <;> decide
  simp only [Sample.event, if_neg (name_ne_time q), if_neg notDeco, Quantity.ofName_name]

theorem event_unconsumed {kind : String} (h : kind ∉ consumedKinds) (value : Value) :
    Sample.event ⟨kind, value⟩ = .ok (.other kind) := by
  simp only [consumedKinds, List.mem_cons, not_or] at h
  obtain ⟨notTime, notDeco, noQuantity⟩ := h
  unfold Sample.event
  rw [if_neg notTime, if_neg notDeco]
  split
  · rename_i q found
    obtain rfl := Quantity.name_of_ofName found
    exact absurd (List.mem_map_of_mem (by cases q <;> decide)) noQuantity
  · rfl

theorem eventOfValue_iff {raw : Value} {event : Event} :
    eventOfValue raw = .ok event ↔ StandsFor raw event := by
  constructor
  · intro h
    obtain ⟨⟨kind, value⟩, shaped, h⟩ := eventOfValue_eq_ok h
    have fields := ofValue_eq_ok.1 shaped
    dsimp only at fields
    unfold Sample.event at h
    dsimp only at h
    split at h
    · rename_i isTime
      subst isTime
      obtain ⟨ms, word, rfl⟩ := timeEvent_iff.1 h
      exact .time fields word
    · rename_i notTime
      split at h
      · rename_i isDeco
        subst isDeco
        obtain ⟨name, time, depth, state, parts, status, seconds, metres, rfl⟩ := decoEvent_iff.1 h
        exact .deco fields parts status seconds metres
      · rename_i notDeco
        split at h
        · rename_i q found
          obtain rfl := Quantity.name_of_ofName found
          obtain ⟨x, number, rfl⟩ := readingEvent_iff.1 h
          exact .reading fields number
        · rename_i unknown
          cases h
          refine .other fields ?_
          simp only [consumedKinds, List.mem_cons, not_or]
          exact ⟨notTime, notDeco, Quantity.not_mem_of_ofName_none unknown⟩
  · rintro (⟨fields, word⟩ | ⟨fields, number⟩ | ⟨fields, parts, status, seconds, metres⟩ |
      ⟨fields, unconsumed⟩)
    · rw [eventOfValue_of_fields fields, event_time]
      exact timeEvent_iff.2 ⟨_, word, rfl⟩
    · rw [eventOfValue_of_fields fields, event_reading]
      exact readingEvent_iff.2 ⟨_, number, rfl⟩
    · rw [eventOfValue_of_fields fields, event_deco]
      exact decoEvent_iff.2 ⟨_, _, _, _, parts, status, seconds, metres, rfl⟩
    · rw [eventOfValue_of_fields fields, event_unconsumed unconsumed]

/-- Why a sample stands for nothing, in the words of the fault. -/
inductive Refused : Value → String → Prop
  | shape {raw : Value} {m : Mismatch} (shapeless : ofValue raw = .error m) : Refused raw m.message
  | time {raw value : Value} (fields : Fields raw "time" value) (no : ∀ ms, ¬IsWord value ms) :
      Refused raw ("time value is not a millisecond offset: " ++ value.text)
  | reading {raw value : Value} {q : Quantity} (fields : Fields raw q.name value)
      (no : ∀ x, ¬IsReading value x) :
      Refused raw (q.name ++ " value is not a number: " ++ value.text)
  | deco {raw value : Value} {m : Mismatch} (fields : Fields raw "deco" value)
      (shapeless : decoOfValue value = .error m) : Refused raw ("deco value: " ++ m.message)
  | status {raw value : Value} {deco : DecoSample} (fields : Fields raw "deco" value)
      (shaped : decoOfValue value = .ok deco)
      (unknown : ∀ status, (smallLetters deco.status, status) ∉ statusNames) :
      Refused raw ("unknown deco status: " ++ smallLetters deco.status)

theorem timeEvent_eq_error {v : Value} {reason : Reason} :
    timeEvent v = .error reason ↔ (∀ ms, ¬IsWord v ms) ∧ reason = .notTime v := by
  constructor
  · intro h
    refine ⟨?_, ?_⟩
    · intro ms word
      rw [timeEvent_iff.2 ⟨ms, word, rfl⟩] at h
      cases h
    · unfold timeEvent at h
      split at h
      · split at h
        · cases h
        · exact (Except.error.inj h).symm
      · exact (Except.error.inj h).symm
  · rintro ⟨no, rfl⟩
    unfold timeEvent
    split
    · rename_i n
      split
      · rename_i small
        have whole : word (.number (.natural n)) = .ok n.toUInt32 := if_pos small
        exact absurd (word_eq_ok.1 whole) (no _)
      · rfl
    · rfl

theorem readingEvent_eq_error {q : Quantity} {v : Value} {reason : Reason} :
    readingEvent q v = .error reason ↔ (∀ x, ¬IsReading v x) ∧ reason = .notNumber q v := by
  cases v with
  | number n => simp [readingEvent, IsReading]
  | null | boolean | string | array | object => simp [readingEvent, IsReading, eq_comm]

theorem decoEvent_eq_error {v : Value} {reason : Reason} :
    decoEvent v = .error reason ↔
      (∃ m, decoOfValue v = .error m ∧ reason = .decoShape m) ∨
      ∃ deco, decoOfValue v = .ok deco ∧
        (∀ status, (smallLetters deco.status, status) ∉ statusNames) ∧
        reason = .unknownStatus (smallLetters deco.status) := by
  cases shaped : decoOfValue v with
  | error m => simp [decoEvent, shaped, eq_comm]
  | ok deco =>
    unfold decoEvent
    rw [shaped]
    dsimp only
    rw [← smallLetters]
    cases found : status? (smallLetters deco.status) with
    | some status =>
      have known := status_eq_some.1 found
      simp only [reduceCtorEq, false_and, exists_false, false_or, false_iff]
      rintro ⟨other, same, unknown, -⟩
      cases same
      exact unknown status known
    | none =>
      have unknown : ∀ status, (smallLetters deco.status, status) ∉ statusNames := by
        intro status mem
        rw [status_eq_some.2 mem] at found
        cases found
      simp [unknown, eq_comm]

theorem mem_consumedKinds {kind : String} :
    kind ∈ consumedKinds ↔ kind = "time" ∨ kind = "deco" ∨ ∃ q : Quantity, kind = q.name := by
  constructor
  · intro consumed
    simp only [consumedKinds, List.mem_cons] at consumed
    refine consumed.imp_right (Or.imp_right fun mem => ?_)
    obtain ⟨q, -, rfl⟩ := List.mem_map.1 mem
    exact ⟨q, rfl⟩
  · rintro (rfl | rfl | ⟨q, rfl⟩)
    · decide
    · decide
    · exact name_mem_consumedKinds q

theorem error_of_refused {raw : Value} {text : String} (h : Refused raw text) :
    ∃ reason, eventOfValue raw = .error reason ∧ reason.message = text := by
  cases h with
  | @shape m shapeless => exact ⟨.sampleShape m, by rw [eventOfValue, shapeless], rfl⟩
  | @time value fields no =>
    refine ⟨.notTime value, ?_, rfl⟩
    rw [eventOfValue_of_fields fields, event_time, timeEvent_eq_error]
    exact ⟨no, rfl⟩
  | @reading value q fields no =>
    refine ⟨.notNumber q value, ?_, rfl⟩
    rw [eventOfValue_of_fields fields, event_reading, readingEvent_eq_error]
    exact ⟨no, rfl⟩
  | @deco value m fields shapeless =>
    refine ⟨.decoShape m, ?_, rfl⟩
    rw [eventOfValue_of_fields fields, event_deco, decoEvent_eq_error]
    exact .inl ⟨m, shapeless, rfl⟩
  | @status value deco fields shaped unknown =>
    refine ⟨.unknownStatus _, ?_, rfl⟩
    rw [eventOfValue_of_fields fields, event_deco, decoEvent_eq_error]
    exact .inr ⟨deco, shaped, unknown, rfl⟩

theorem refused_of_event {raw value : Value} {kind : String} {reason : Reason}
    (fields : Fields raw kind value) (h : event ⟨kind, value⟩ = .error reason) :
    Refused raw reason.message := by
  by_cases consumed : kind ∈ consumedKinds
  · rcases mem_consumedKinds.1 consumed with rfl | rfl | ⟨q, rfl⟩
    · rw [event_time, timeEvent_eq_error] at h
      obtain ⟨no, rfl⟩ := h
      exact .time fields no
    · rw [event_deco, decoEvent_eq_error] at h
      rcases h with ⟨m, shapeless, rfl⟩ | ⟨deco, shaped, unknown, rfl⟩
      · exact .deco fields shapeless
      · exact .status fields shaped unknown
    · rw [event_reading, readingEvent_eq_error] at h
      obtain ⟨no, rfl⟩ := h
      exact .reading fields no
  · rw [event_unconsumed consumed] at h
    cases h

theorem refused_iff {raw : Value} {text : String} :
    Refused raw text ↔ ∃ reason, eventOfValue raw = .error reason ∧ reason.message = text := by
  refine ⟨error_of_refused, ?_⟩
  rintro ⟨reason, refused, rfl⟩
  cases shaped : ofValue raw with
  | error m =>
    rw [eventOfValue, shaped] at refused
    cases refused
    exact .shape shaped
  | ok sample =>
    have fields := ofValue_eq_ok.1 shaped
    rw [eventOfValue_of_fields fields] at refused
    exact refused_of_event fields refused

/-- A sample is decoded to an event if and only if it stands for it. The event has the kind of the
sample, and none of the known kinds if it is no more than a name; a sample that stands for nothing
is refused with its own position. -/
theorem decode_by_meaning (index : Nat) (raw : Value) :
    (∀ event, decode index raw = .ok event ↔ StandsFor raw event) ∧
      ((∀ event, ¬StandsFor raw event) →
        ∃ reason, decode index raw = .error (.invalidSample index reason)) ∧
      ∀ event, decode index raw = .ok event → (∃ value, Fields raw event.kind value) ∧
        ∀ name, event = .other name → name ∉ consumedKinds := by
  have means : ∀ event, decode index raw = .ok event ↔ StandsFor raw event :=
    fun event => decode_eq_ok.trans eventOfValue_iff
  refine ⟨means, ?_, ?_⟩
  · intro nothing
    cases decoded : decode index raw with
    | ok event => exact absurd ((means event).1 decoded) (nothing event)
    | error fault =>
      obtain ⟨reason, -, rfl⟩ := decode_eq_error.1 decoded
      exact ⟨reason.message, rfl⟩
  · intro event decoded
    constructor
    · obtain ⟨sample, shaped, h⟩ := eventOfValue_eq_ok (decode_eq_ok.1 decoded)
      rw [kind_of_event h]
      exact ⟨sample.value, ofValue_eq_ok.1 shaped⟩
    · rintro name rfl
      cases (means _).1 decoded with
      | other fields unconsumed => exact unconsumed

end Sample

end DiveTable
