import DiveTable.Proofs.LiteralCells
import DiveTable.Proofs.RecordForms

/-! # The two forms of a sample

A sample, and the value of a deco sample, stands for the same event in either form:
`Sample.events_of_otherForm` and `Sample.events_of_otherStop`. A list with too few or too many items
stands for none. -/
namespace DiveTable

open Json

def Json.IsZero (expr : Expr) : Prop :=
  ∃ l : Literal, expr = .number l ∧ l.number? = some (.natural 0)

/-- A literal that is read as some number next to nought, with no minus. -/
def Json.IsZeroReading (expr : Expr) : Prop :=
  ∃ (l : Literal) (n : Number), expr = .number l ∧ l.number? = some n ∧ n.toBinary64 = .zero

namespace Sample

def forms : List FieldForm := [⟨"type", required⟩, ⟨"value", (· = .null)⟩]

def stopForms : List FieldForm :=
  [⟨"status", required⟩, ⟨"time", IsZero⟩, ⟨"depth", IsZeroReading⟩]

def event? (raw : Value) : Option Event := (eventOfValue raw).toOption

theorem event_eq_some {raw : Value} {event : Event} :
    event? raw = some event ↔ eventOfValue raw = .ok event := by
  constructor
  · exact eq_ok_of_toOption
  · intro h
    rw [event?, h]
    rfl

theorem exists_fields {raw : Value} {event : Event} (h : event? raw = some event) :
    ∃ kind value, Fields raw kind value := by
  obtain ⟨sample, shaped, -⟩ := eventOfValue_eq_ok (event_eq_some.1 h)
  exact ⟨_, _, ofValue_eq_ok.1 shaped⟩

/-- Samples with the same kind, and values that make the same event of it. -/
theorem event_congr {raw raw' : Value}
    (forth : ∀ kind value, Fields raw kind value → ∃ value', Fields raw' kind value' ∧
      (Sample.event ⟨kind, value⟩).toOption = (Sample.event ⟨kind, value'⟩).toOption)
    (back : ∀ kind value, Fields raw' kind value → ∃ value', Fields raw kind value') :
    event? raw = event? raw' := by
  by_cases shaped : ∃ kind value, Fields raw kind value
  · obtain ⟨kind, value, fields⟩ := shaped
    obtain ⟨value', fields', same⟩ := forth kind value fields
    rw [event?, event?, eventOfValue_of_fields fields, eventOfValue_of_fields fields', same]
  · have none {v : Value} (h : ∀ kind value, ¬Fields v kind value) : event? v = none := by
      apply Option.eq_none_iff_forall_ne_some.2
      intro event decoded
      obtain ⟨kind, value, fields⟩ := exists_fields decoded
      exact h kind value fields
    rw [none fun kind value fields => shaped ⟨kind, value, fields⟩]
    refine (none fun kind value fields => ?_).symm
    obtain ⟨value', fields'⟩ := back kind value fields
    exact shaped ⟨kind, value', fields'⟩

section

variable {budget : Nat} {v v' : Value}

theorem readable_null : ∃ v, Expr.null.value? budget = some v := by
  cases budget <;> exact ⟨_, rfl⟩

theorem value_number {l : Literal} {n : Number} (h : l.number? = some n) :
    (Expr.number l).value? budget = some (.number n) := by
  cases budget <;> exact congrArg (Option.map Value.number) h

theorem value_of_default {name : String} {field field' : Option Value}
    (h : SameField (Expr.value? budget) ⟨name, (· = .null)⟩ field field') :
    field.getD .null = field'.getD .null := by
  cases h with
  | same => rfl
  | default is read =>
    cases is
    cases budget <;> exact Option.some.inj read

/-! ## Samples -/

theorem fields_of_same (h : SameFields (Expr.value? budget) forms v v') {kind : String}
    {value : Value} : Fields v kind value ↔ Fields v' kind value := by
  have kinds : v.field? "type" 0 = v'.field? "type" 0 := (h.each 0 _ rfl).eq_of_required
  have values : (v.field? "value" 1).getD .null = (v'.field? "value" 1).getD .null :=
    value_of_default (h.each 1 _ rfl)
  have isRecord : v.IsRecord 2 ↔ v'.IsRecord 2 := iff_of_true h.isRecord h.isRecord'
  rw [fields_iff, fields_iff, kinds, values, isRecord]

/-- What a list or an object holds for a sample is one of these. -/
theorem events_of_otherForm {a b : Expr}
    (h : OtherForm forms (fun expr => ∃ v, expr.value? budget = some v) a b) :
    (a.value? (budget + 1)).map event? = (b.value? (budget + 1)).map event? := by
  have names : (forms.map FieldForm.name).Nodup := by decide
  have alike := alike_of_otherForm names ?_ h
  · revert alike
    generalize a.value? (budget + 1) = v
    generalize b.value? (budget + 1) = v'
    intro alike
    cases alike with
    | unread => rfl
    | read same =>
      refine congrArg some (event_congr ?_ ?_)
      · intro kind value fields
        exact ⟨value, (fields_of_same same).1 fields, rfl⟩
      · intro kind value fields
        exact ⟨value, (fields_of_same same).2 fields⟩
  · simp only [forms, List.forall_mem_cons, List.not_mem_nil, false_implies, implies_true, and_true]
    refine ⟨fun _ is => is.elim, ?_⟩
    rintro _ rfl
    exact readable_null

/-! ## Deco stops -/

theorem given_word {field field' : Option Value}
    (h : SameField (Expr.value? budget) ⟨"time", IsZero⟩ field field') {seconds : UInt32} :
    Given IsWord 0 field seconds ↔ Given IsWord 0 field' seconds := by
  cases h with
  | same => rfl
  | default is read =>
    obtain ⟨l, rfl, number⟩ := is
    rw [value_number number] at read
    cases read
    constructor
    · rintro rfl
      exact ⟨0, rfl, rfl⟩
    · rintro ⟨n, same, word⟩
      cases same
      exact UInt32.toNat_inj.1 word.symm

theorem given_reading {field field' : Option Value}
    (h : SameField (Expr.value? budget) ⟨"depth", IsZeroReading⟩ field field') {depth : Binary64} :
    Given IsReading .zero field depth ↔ Given IsReading .zero field' depth := by
  cases h with
  | same => rfl
  | default is read =>
    obtain ⟨l, n, rfl, number, zero⟩ := is
    rw [value_number number] at read
    cases read
    constructor
    · rintro rfl
      exact ⟨n, rfl, zero.symm⟩
    · rintro ⟨m, same, near⟩
      cases same
      exact near.trans zero

theorem decoEvent_iff_fields {event : Event} : decoEvent v = .ok event ↔
    v.IsRecord 3 ∧ ∃ name state, v.field? "status" 0 = some (.string name) ∧
      (smallLetters name, state.status) ∈ statusNames ∧
      Given IsWord 0 (v.field? "time" 1) state.seconds ∧
      Given IsReading .zero (v.field? "depth" 2) state.depth ∧ event = .deco state := by
  rw [decoEvent_iff]
  constructor
  · rintro ⟨name, time, depth, state, parts, known, seconds, metres, same⟩
    obtain ⟨isRecord, isStatus, rfl, rfl⟩ := decoFields_iff.1 parts
    exact ⟨isRecord, name, state, isStatus, known, seconds, metres, same⟩
  · rintro ⟨isRecord, name, state, isStatus, known, seconds, metres, same⟩
    exact ⟨name, _, _, state, decoFields_iff.2 ⟨isRecord, isStatus, rfl, rfl⟩, known, seconds,
      metres, same⟩

theorem decoEvent_of_same (h : SameFields (Expr.value? budget) stopForms v v') :
    (decoEvent v).toOption = (decoEvent v').toOption := by
  have statuses : v.field? "status" 0 = v'.field? "status" 0 := (h.each 0 _ rfl).eq_of_required
  have times (seconds : UInt32) : Given IsWord 0 (v.field? "time" 1) seconds ↔
      Given IsWord 0 (v'.field? "time" 1) seconds := given_word (h.each 1 _ rfl)
  have depths (depth : Binary64) : Given IsReading .zero (v.field? "depth" 2) depth ↔
      Given IsReading .zero (v'.field? "depth" 2) depth := given_reading (h.each 2 _ rfl)
  have isRecord : v.IsRecord 3 ↔ v'.IsRecord 3 := iff_of_true h.isRecord h.isRecord'
  have same (event : Event) : decoEvent v = .ok event ↔ decoEvent v' = .ok event := by
    simp only [decoEvent_iff_fields, statuses, times, depths, isRecord]
  cases decoded : decoEvent v with
  | ok event => rw [(same event).1 decoded]
  | error reason =>
    cases decoded' : decoEvent v' with
    | ok event =>
      rw [(same event).2 decoded'] at decoded
      cases decoded
    | error reason' => rfl

/-- A record is no number. -/
theorem no_number {size : Nat} (h : v.IsRecord size) :
    (timeEvent v).toOption = none ∧ ∀ q, (readingEvent q v).toOption = none := by
  cases v with
  | object | array => exact ⟨rfl, fun q => rfl⟩
  | null | boolean | number | string => cases h

theorem event_of_same (h : SameFields (Expr.value? budget) stopForms v v') (kind : String) :
    (Sample.event ⟨kind, v⟩).toOption = (Sample.event ⟨kind, v'⟩).toOption := by
  obtain ⟨noTime, noReading⟩ := no_number h.isRecord
  obtain ⟨noTime', noReading'⟩ := no_number h.isRecord'
  unfold Sample.event
  dsimp only
  by_cases isTime : kind = "time"
  · rw [if_pos isTime, if_pos isTime, noTime, noTime']
  · rw [if_neg isTime, if_neg isTime]
    by_cases isDeco : kind = "deco"
    · rw [if_pos isDeco, if_pos isDeco]
      exact decoEvent_of_same h
    · rw [if_neg isDeco, if_neg isDeco]
      cases Quantity.ofName? kind with
      | none => rfl
      | some q => exact (noReading q).trans (noReading' q).symm

/-- Two records are put in the same place of a sample. -/
theorem event_put {raw : Value} (has : raw.field? "value" 1 = some v)
    (h : SameFields (Expr.value? budget) stopForms v v') :
    event? raw = event? (raw.put "value" 1 v') := by
  have has' := Value.field_put has v'
  refine event_congr ?_ ?_
  · intro kind value fields
    obtain ⟨-, -, rfl⟩ := fields_iff.1 fields
    rw [has]
    exact ⟨v', fields.put has v', event_of_same h kind⟩
  · intro kind value fields
    obtain ⟨isRecord, isKind, -⟩ := fields_iff.1 fields
    rw [Value.field_put_other (by decide) (by decide)] at isKind
    exact ⟨_, fields_iff.2 ⟨Value.isRecord_put.1 isRecord, isKind, rfl⟩⟩

/-- The value of a deco sample may have either form. -/
theorem events_of_otherStop {sample : Expr → Expr} (inside : LastIn "value" 1 sample) {a b : Expr}
    (h : OtherForm stopForms (fun expr => ∃ v, expr.value? budget = some v) a b) :
    ((sample a).value? (budget + 2)).map event? = ((sample b).value? (budget + 2)).map event? := by
  have names : (stopForms.map FieldForm.name).Nodup := by decide
  have alike := alike_of_otherForm names ?_ h
  · cases read : (sample a).value? (budget + 2) with
    | some raw =>
      obtain ⟨⟨v, value, has⟩, others⟩ := value_of_lastIn inside read
      rw [others b]
      rw [value] at alike
      generalize b.value? (budget + 1) = other at alike
      cases alike with
      | read same => exact congrArg some (event_put has same)
    | none =>
      cases read' : (sample b).value? (budget + 2) with
      | none => rfl
      | some raw =>
        obtain ⟨⟨v, value, -⟩, others⟩ := value_of_lastIn inside read'
        have unread := others a
        rw [read] at unread
        rw [value, Option.map_eq_none_iff.1 unread.symm] at alike
        cases alike
  · simp only [stopForms, List.forall_mem_cons, List.not_mem_nil, false_implies, implies_true,
      and_true]
    refine ⟨fun _ is => is.elim, ?_, ?_⟩
    · rintro _ ⟨l, rfl, number⟩
      exact ⟨_, value_number number⟩
    · rintro _ ⟨l, n, rfl, number, -⟩
      exact ⟨_, value_number number⟩

end

/-! ## Lists of another length -/

theorem length_of_decoded {values : List Value} {event : Event}
    (h : eventOfValue (.array values) = .ok event) : 1 ≤ values.length ∧ values.length ≤ 2 := by
  obtain ⟨kind, value, fields⟩ := exists_fields (event_eq_some.2 h)
  obtain ⟨short, isKind, -⟩ := fields_iff.1 fields
  exact ⟨(List.getElem?_eq_some_iff.1 isKind).1, short⟩

theorem length_of_stop {values : List Value} {event : Event}
    (h : decoEvent (.array values) = .ok event) : 1 ≤ values.length ∧ values.length ≤ 3 := by
  obtain ⟨short, name, state, isStatus, -⟩ := decoEvent_iff_fields.1 h
  exact ⟨(List.getElem?_eq_some_iff.1 isStatus).1, short⟩

end Sample

end DiveTable
