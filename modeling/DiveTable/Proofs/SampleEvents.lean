import DiveTable.Trace
import DiveTable.Sample

/-! # From samples to their events

A sample is a record of a kind and a value, and the value of a deco sample is a record of its own.
What is read of a record is what stands in its fields, whether they have names or places; the kind
and the value tell the event. -/
namespace DiveTable

open Json

def Json.Value.field? (name : String) (place : Nat) : Value → Option Value
  | .object members => members.lookup name
  | .array items => items[place]?
  | _ => none

theorem Quantity.name_of_ofName {name : String} {q : Quantity} (h : ofName? name = some q) :
    name = q.name := by
  have found := List.find?_some h
  exact (beq_iff_eq.1 found).symm

namespace Sample

theorem text_eq_ok {v : Value} {s : String} (h : text v = .ok s) : v = .string s := by
  cases v with
  | string t => exact congrArg Value.string (Except.ok.inj h)
  | null | boolean | number | array | object => cases h

/-- A value that is missing is null. -/
theorem fields_of_ofValue {v : Value} {sample : Sample} (h : ofValue v = .ok sample) :
    v.field? "type" 0 = some (.string sample.kind) ∧
      sample.value = (v.field? "value" 1).getD .null := by
  cases v with
  | array items =>
    cases items with
    | nil => cases h
    | cons kind rest =>
      obtain ⟨name, read, h⟩ := bind_eq_ok h
      obtain rfl := text_eq_ok read
      cases rest with
      | nil =>
        cases h
        exact ⟨rfl, rfl⟩
      | cons value rest =>
        cases rest with
        | nil =>
          cases h
          exact ⟨rfl, rfl⟩
        | cons second rest => cases h
  | object members =>
    unfold ofValue at h
    dsimp only at h
    cases kind : members.lookup "type" with
    | none =>
      rw [kind] at h
      cases h
    | some kindValue =>
      rw [kind] at h
      obtain ⟨name, read, same⟩ := bind_eq_ok h
      obtain rfl := text_eq_ok read
      cases same
      exact ⟨kind, rfl⟩
  | null | boolean | number | string => cases h

/-- A depth that is missing is zero. -/
theorem depth_of_decoOfValue {v : Value} {deco : DecoSample} (h : decoOfValue v = .ok deco) :
    orDefault binary64 .zero (v.field? "depth" 2) = .ok deco.depth := by
  cases v with
  | array items =>
    cases items with
    | nil => cases h
    | cons status rest =>
      obtain ⟨name, -, h⟩ := bind_eq_ok h
      obtain ⟨seconds, -, h⟩ := bind_eq_ok h
      obtain ⟨depth, read, h⟩ := bind_eq_ok h
      split at h
      · cases h
        exact read
      · cases h
  | object members =>
    obtain ⟨depth, read, h⟩ := bind_eq_ok h
    split at h
    · obtain ⟨_, -, h⟩ := bind_eq_ok h
      cases h
    · obtain ⟨name, -, h⟩ := bind_eq_ok h
      obtain ⟨seconds, -, h⟩ := bind_eq_ok h
      cases h
      exact read
  | null | boolean | number | string => cases h

theorem eventOfValue_eq_ok {raw : Value} {event : Event} (h : eventOfValue raw = .ok event) :
    ∃ sample, ofValue raw = .ok sample ∧ sample.event = .ok event := by
  unfold eventOfValue at h
  cases shaped : ofValue raw with
  | error m =>
    rw [shaped] at h
    cases h
  | ok sample =>
    rw [shaped] at h
    exact ⟨sample, rfl, h⟩

theorem timeEvent_eq_ok {v : Value} {event : Event} (h : timeEvent v = .ok event) :
    ∃ ms, event = .time ms := by
  unfold timeEvent at h
  split at h
  · split at h
    · exact ⟨_, (Except.ok.inj h).symm⟩
    · cases h
  · cases h

theorem decoEvent_eq_ok {v : Value} {event : Event} (h : decoEvent v = .ok event) :
    ∃ deco status, decoOfValue v = .ok deco ∧
      event = .deco ⟨status, deco.seconds, deco.depth⟩ := by
  unfold decoEvent at h
  cases shaped : decoOfValue v with
  | error m =>
    rw [shaped] at h
    cases h
  | ok deco =>
    rw [shaped] at h
    dsimp only at h
    split at h
    · cases h
    · exact ⟨deco, _, rfl, (Except.ok.inj h).symm⟩

theorem readingEvent_eq_ok {q : Quantity} {v : Value} {event : Event}
    (h : readingEvent q v = .ok event) :
    ∃ n, v = .number n ∧ event = .reading q n.toBinary64 := by
  unfold readingEvent at h
  split at h
  · exact ⟨_, rfl, (Except.ok.inj h).symm⟩
  · cases h

/-- What a sample can stand for, by its kind. -/
theorem event_cases {sample : Sample} {event : Event} (h : sample.event = .ok event) :
    (sample.kind = "time" ∧ ∃ ms, event = .time ms) ∨
    (sample.kind = "deco" ∧ ∃ deco status, decoOfValue sample.value = .ok deco ∧
      event = .deco ⟨status, deco.seconds, deco.depth⟩) ∨
    (∃ q n, sample.kind = q.name ∧ sample.value = .number n ∧
      event = .reading q n.toBinary64) ∨
    (sample.kind ≠ "time" ∧ sample.kind ≠ "deco" ∧ Quantity.ofName? sample.kind = none ∧
      event = .other sample.kind) := by
  unfold Sample.event at h
  split at h
  · rename_i kind
    exact .inl ⟨kind, timeEvent_eq_ok h⟩
  · rename_i notTime
    split at h
    · rename_i kind
      exact .inr (.inl ⟨kind, decoEvent_eq_ok h⟩)
    · rename_i notDeco
      split at h
      · rename_i q found
        obtain ⟨n, value, same⟩ := readingEvent_eq_ok h
        exact .inr (.inr (.inl ⟨q, n, Quantity.name_of_ofName found, value, same⟩))
      · rename_i unknown
        exact .inr (.inr (.inr ⟨notTime, notDeco, unknown, (Except.ok.inj h).symm⟩))

/-- An event has the kind of its sample. -/
theorem kind_of_event {sample : Sample} {event : Event} (h : sample.event = .ok event) :
    event.kind = sample.kind := by
  rcases event_cases h with
    ⟨kind, ms, rfl⟩ | ⟨kind, deco, status, -, rfl⟩ | ⟨q, n, kind, -, rfl⟩ | ⟨-, -, -, rfl⟩
  · exact kind.symm
  · exact kind.symm
  · exact kind.symm
  · rfl

end Sample

end DiveTable
