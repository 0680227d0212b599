/-! # Items up to the first fault

A stream of items is over at its first fault: what counts are the events in front of it and the
fault itself. -/
namespace DiveTable

namespace Items

variable {ε α : Type}

def events : List (Except ε α) → List α
  | [] => []
  | .error _ :: _ => []
  | .ok event :: rest => event :: events rest

def fault? : List (Except ε α) → Option ε
  | [] => none
  | .error fault :: _ => some fault
  | .ok _ :: rest => fault? rest

theorem fault?_eq_none_iff {items : List (Except ε α)} :
    fault? items = none ↔ ∀ fault, .error fault ∉ items := by
  induction items with
  | nil => simp [fault?]
  | cons item items ih =>
    cases item with
    | error fault =>
      constructor
      · intro none
        cases none
      · intro h
        exact absurd List.mem_cons_self (h fault)
    | ok event => simp [fault?, ih]

def Reached (items : List (Except ε α)) (i : Nat) : Prop :=
  ∀ j < i, ∃ event, items[j]? = some (.ok event)

theorem reached_cons {item : Except ε α} {items : List (Except ε α)} {i : Nat} :
    Reached (item :: items) (i + 1) ↔ (∃ event, item = .ok event) ∧ Reached items i := by
  constructor
  · intro h
    refine ⟨by simpa using h 0 (by omega), ?_⟩
    intro j hj
    simpa using h (j + 1) (by omega)
  · rintro ⟨⟨event, rfl⟩, h⟩ j hj
    cases j with
    | zero => exact ⟨event, rfl⟩
    | succ j => simpa using h j (by omega)

theorem reached_take {items : List (Except ε α)} {i : Nat} :
    Reached (items.take i) i ↔ Reached items i := by
  unfold Reached
  constructor
  · intro h j hj
    simpa [List.getElem?_take_of_lt hj] using h j hj
  · intro h j hj
    simpa [List.getElem?_take_of_lt hj] using h j hj

theorem length_events_take {items : List (Except ε α)} {i : Nat} (h : Reached items i) :
    (events (items.take i)).length = i := by
  induction i generalizing items with
  | zero => rfl
  | succ i ih =>
    cases items with
    | nil => simpa using h 0 (by omega)
    | cons item items =>
      obtain ⟨⟨event, rfl⟩, later⟩ := reached_cons.1 h
      simpa [events] using ih later

theorem events_take (items : List (Except ε α)) (i : Nat) :
    events (items.take i) = (events items).take i := by
  induction items generalizing i with
  | nil => simp [events]
  | cons item items ih =>
    cases i with
    | zero => rfl
    | succ i => cases item <;> simp [events, ih]

theorem getElem_events {items : List (Except ε α)} {i : Nat} {event : α}
    (h : (events items)[i]? = some event) : items[i]? = some (.ok event) := by
  induction items generalizing i with
  | nil => simp [events] at h
  | cons item items ih =>
    cases item with
    | error fault => simp [events] at h
    | ok first =>
      cases i with
      | zero => simpa [events] using h
      | succ i => simpa using ih (by simpa [events] using h)

theorem reached_length_events (items : List (Except ε α)) :
    Reached items (events items).length := by
  intro j hj
  exact ⟨(events items)[j], getElem_events (List.getElem?_eq_getElem hj)⟩

theorem getElem_length_events (items : List (Except ε α)) :
    items[(events items).length]? = (fault? items).map .error := by
  induction items with
  | nil => rfl
  | cons item items ih =>
    cases item with
    | error fault => rfl
    | ok event => simpa [events, fault?] using ih

def untilFault (items : List (Except ε α)) : List (Except ε α) :=
  (events items).map .ok ++ ((fault? items).map .error).toList

@[simp] theorem untilFault_nil : untilFault ([] : List (Except ε α)) = [] := rfl

@[simp] theorem untilFault_error (fault : ε) (rest : List (Except ε α)) :
    untilFault (.error fault :: rest) = [.error fault] := rfl

@[simp] theorem untilFault_ok (event : α) (rest : List (Except ε α)) :
    untilFault (.ok event :: rest) = .ok event :: untilFault rest := rfl

end Items

end DiveTable
