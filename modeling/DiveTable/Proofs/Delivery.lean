import DiveTable.Proofs.Items
import DiveTable.Sample

/-! # Delivery of the samples of a dump

A cursor without a fault is told by the events it has delivered: their number is its index and the
last time among them is the one that the next may not undercut. One step of it decides one item;
the items of a dump, and every call made after the last of them, follow by induction. -/
namespace DiveTable

open Json

namespace Cursor

open Items (Reached)

def lastTime? (events : List Event) : Option UInt32 := (events.filterMap Event.time?).getLast?

def GoesBack (delivered : List Event) (event : Event) : Prop :=
  ∃ previous current, lastTime? delivered = some previous ∧ event = .time current ∧
    current < previous

def verdict (delivered : List Event) (raw : Value) : Except Fault Event := do
  let event ← Sample.decode delivered.length raw
  let _ ← inOrder delivered.length (lastTime? delivered) event
  return event

def judged (delivered : List Event) : List Value → List (Except Fault Event)
  | [] => []
  | raw :: rest =>
    match verdict delivered raw with
    | .error fault => [.error fault]
    | .ok event => .ok event :: judged (delivered ++ [event]) rest

def behind (delivered : List Event) (rest : List Value) : Cursor :=
  ⟨rest, delivered.length, lastTime? delivered, false⟩

theorem lastTime_append_time (delivered : List Event) (ms : UInt32) :
    lastTime? (delivered ++ [.time ms]) = some ms := by
  simp [lastTime?]

theorem times_append_of_timeless (events : List Event) {event : Event} (h : event.time? = none) :
    (events ++ [event]).filterMap Event.time? = events.filterMap Event.time? := by
  simp [h]

theorem lastTime_append_of_timeless (events : List Event) {event : Event}
    (h : event.time? = none) : lastTime? (events ++ [event]) = lastTime? events := by
  rw [lastTime?, times_append_of_timeless events h, lastTime?]

theorem inOrder_of_goesBack (i : Nat) {delivered : List Event} {previous current : UInt32}
    (last : lastTime? delivered = some previous) (back : current < previous) :
    inOrder i (lastTime? delivered) (.time current) = .error (.timeOrder i previous current) := by
  simp [inOrder, last, back]

theorem inOrder_of_not_goesBack (i : Nat) {delivered : List Event} {event : Event}
    (h : ¬GoesBack delivered event) :
    inOrder i (lastTime? delivered) event = .ok (lastTime? (delivered ++ [event])) := by
  cases event with
  | time current =>
    rw [lastTime_append_time]
    cases last : lastTime? delivered with
    | none => rfl
    | some previous =>
      have notBack : ¬current < previous := fun back => h ⟨previous, current, last, rfl, back⟩
      simp [inOrder, notBack]
  | reading | deco | other =>
    rw [lastTime_append_of_timeless delivered rfl]
    rfl

theorem verdict_of_undecodable {delivered : List Event} {raw : Value} {fault : Fault}
    (h : Sample.decode delivered.length raw = .error fault) :
    verdict delivered raw = .error fault := by
  rw [verdict, h]
  rfl

theorem verdict_of_goesBack {delivered : List Event} {raw : Value} {previous current : UInt32}
    (decoded : Sample.decode delivered.length raw = .ok (.time current))
    (last : lastTime? delivered = some previous) (back : current < previous) :
    verdict delivered raw = .error (.timeOrder delivered.length previous current) := by
  rw [verdict, decoded]
  show (inOrder delivered.length (lastTime? delivered) (.time current) >>= _) = _
  rw [inOrder_of_goesBack _ last back]
  rfl

theorem verdict_of_not_goesBack {delivered : List Event} {raw : Value} {event : Event}
    (decoded : Sample.decode delivered.length raw = .ok event)
    (h : ¬GoesBack delivered event) : verdict delivered raw = .ok event := by
  rw [verdict, decoded]
  show (inOrder delivered.length (lastTime? delivered) event >>= _) = _
  rw [inOrder_of_not_goesBack _ h]
  rfl

theorem verdict_cases (delivered : List Event) (raw : Value) :
    (∃ event, Sample.decode delivered.length raw = .ok event ∧ ¬GoesBack delivered event ∧
      verdict delivered raw = .ok event) ∨
    (∃ fault, Sample.decode delivered.length raw = .error fault ∧
      verdict delivered raw = .error fault) ∨
    (∃ previous current, Sample.decode delivered.length raw = .ok (.time current) ∧
      lastTime? delivered = some previous ∧ current < previous ∧
      verdict delivered raw = .error (.timeOrder delivered.length previous current)) := by
  cases decoded : Sample.decode delivered.length raw with
  | error fault => exact .inr (.inl ⟨fault, rfl, verdict_of_undecodable decoded⟩)
  | ok event =>
    by_cases h : GoesBack delivered event
    · obtain ⟨previous, current, last, rfl, back⟩ := h
      exact .inr (.inr ⟨previous, current, rfl, last, back,
        verdict_of_goesBack decoded last back⟩)
    · exact .inl ⟨event, rfl, h, verdict_of_not_goesBack decoded h⟩

theorem next_behind (delivered : List Event) (raw : Value) (rest : List Value) :
    (behind delivered (raw :: rest)).next? =
      match verdict delivered raw with
      | .ok event => some (.ok event, behind (delivered ++ [event]) rest)
      | .error fault =>
        some (.error fault, ⟨rest, delivered.length + 1, lastTime? delivered, true⟩) := by
  rcases verdict_cases delivered raw with
    ⟨event, decoded, h, hv⟩ | ⟨fault, decoded, hv⟩ | ⟨previous, current, decoded, last, back, hv⟩
  · simp [hv, next?, behind, decoded, inOrder_of_not_goesBack _ h, bind, Except.bind]
  · simp [hv, next?, behind, decoded, bind, Except.bind]
  · simp [hv, next?, behind, decoded, inOrder_of_goesBack _ last back, bind, Except.bind]

theorem take_failed {cursor : Cursor} (h : cursor.failed = true) (n : Nat) :
    take n cursor = [] := by
  cases n <;> simp [take, next_failed h]

theorem take_behind (delivered : List Event) (samples : List Value) :
    take samples.length (behind delivered samples) = judged delivered samples := by
  induction samples generalizing delivered with
  | nil => rfl
  | cons raw rest ih =>
    rw [List.length_cons, take, next_behind, judged]
    cases verdict delivered raw with
    | ok event => simp [ih]
    | error fault => simp [take_failed]

theorem items_eq_judged (samples : List Value) : items samples = judged [] samples :=
  take_behind [] samples

/-- Samples that come later do not change what is delivered of those in front. -/
theorem judged_take (delivered : List Event) (samples : List Value) (k : Nat) :
    judged delivered (samples.take k) = (judged delivered samples).take k := by
  induction samples generalizing delivered k with
  | nil => simp [judged]
  | cons raw rest ih =>
    cases k with
    | zero => simp [judged]
    | succ k =>
      rw [List.take_succ_cons, judged, judged]
      cases verdict delivered raw with
      | error fault => simp
      | ok event => simp [ih]

theorem items_take (samples : List Value) (k : Nat) :
    items (samples.take k) = (items samples).take k := by
  rw [items_eq_judged, items_eq_judged, judged_take]

theorem length_judged_le (delivered : List Event) (samples : List Value) :
    (judged delivered samples).length ≤ samples.length := by
  induction samples generalizing delivered with
  | nil => exact Nat.le_refl 0
  | cons raw rest ih =>
    rw [judged]
    cases verdict delivered raw with
    | error fault => simp
    | ok event => exact Nat.succ_le_succ (ih (delivered ++ [event]))

theorem length_judged_of_events {delivered : List Event} {samples : List Value}
    (h : ∀ item ∈ judged delivered samples, ∃ event, item = .ok event) :
    (judged delivered samples).length = samples.length := by
  induction samples generalizing delivered with
  | nil => rfl
  | cons raw rest ih =>
    rw [judged] at h ⊢
    cases hv : verdict delivered raw with
    | error fault =>
      obtain ⟨event, absurd⟩ := h (.error fault) (by simp [hv])
      cases absurd
    | ok event =>
      have later : ∀ item ∈ judged (delivered ++ [event]) rest, ∃ event, item = .ok event :=
        fun item hi => h item (by simp [hv, hi])
      simp [ih later]

theorem length_judged_of_fault {delivered : List Event} {samples : List Value} {i : Nat}
    {fault : Fault} (h : (judged delivered samples)[i]? = some (.error fault)) :
    (judged delivered samples).length = i + 1 := by
  induction samples generalizing delivered i with
  | nil => simp [judged] at h
  | cons raw rest ih =>
    rw [judged] at h ⊢
    cases hv : verdict delivered raw with
    | error other =>
      cases i with
      | zero => rfl
      | succ i => simp [hv] at h
    | ok event =>
      cases i with
      | zero => simp [hv] at h
      | succ i =>
        have later : (judged (delivered ++ [event]) rest)[i]? = some (.error fault) := by
          simpa [hv] using h
        simp [ih later]

/-- While there is no fault, the item at a place is the verdict on the sample at that place. -/
theorem getElem_judged {delivered : List Event} {samples : List Value} {i : Nat} {raw : Value}
    (hraw : samples[i]? = some raw) (reached : Reached (judged delivered samples) i) :
    (judged delivered samples)[i]? =
      some (verdict (delivered ++ Items.events ((judged delivered samples).take i)) raw) := by
  induction i generalizing delivered samples with
  | zero =>
    cases samples with
    | nil => simp at hraw
    | cons first rest =>
      obtain rfl : first = raw := by simpa using hraw
      rw [judged]
      cases hv : verdict delivered first <;> simp [Items.events, hv]
  | succ i ih =>
    cases samples with
    | nil => simp at hraw
    | cons first rest =>
      rw [judged] at reached ⊢
      cases hv : verdict delivered first with
      | error fault =>
        rw [hv] at reached
        obtain ⟨⟨event, absurd⟩, -⟩ := Items.reached_cons.1 reached
        cases absurd
      | ok event =>
        rw [hv] at reached
        have later := ih (by simpa using hraw) (Items.reached_cons.1 reached).2
        simpa [Items.events] using later

/-- What samples are delivered as: each as the event it decodes to, up to the first that does not
decode or sets the time back. -/
structure Delivered (samples : List Value) (items : List (Except Fault Event)) : Prop where
  no_longer : items.length ≤ samples.length
  only_last : ∀ i, i + 1 < items.length → ∃ event, items[i]? = some (.ok event)
  whole : (∀ item ∈ items, ∃ event, item = .ok event) → items.length = samples.length
  in_order : ∀ i raw event, samples[i]? = some raw → Reached items i →
    Sample.decode i raw = .ok event → ¬GoesBack (Items.events (items.take i)) event →
    items[i]? = some (.ok event)
  undecodable : ∀ i raw fault, samples[i]? = some raw → Reached items i →
    Sample.decode i raw = .error fault →
    (∃ reason, fault = .invalidSample i reason) ∧ items[i]? = some (.error fault) ∧
      items.length = i + 1
  backwards : ∀ i raw previous current, samples[i]? = some raw → Reached items i →
    Sample.decode i raw = .ok (.time current) →
    lastTime? (Items.events (items.take i)) = some previous → current < previous →
    items[i]? = some (.error (.timeOrder i previous current)) ∧ items.length = i + 1

theorem delivered_judged (samples : List Value) : Delivered samples (judged [] samples) where
  no_longer := length_judged_le [] samples
  only_last := by
    intro i hi
    cases h : (judged [] samples)[i] with
    | ok event => exact ⟨event, by simp [← h]⟩
    | error fault =>
      have last := length_judged_of_fault (List.getElem?_eq_some_iff.2 ⟨by omega, h⟩)
      omega
  whole := length_judged_of_events
  in_order := by
    intro i raw event hraw reached decoded h
    have index := Items.length_events_take reached
    rw [getElem_judged hraw reached, List.nil_append,
      verdict_of_not_goesBack (by rw [index]; exact decoded) h]
  undecodable := by
    intro i raw fault hraw reached decoded
    have index := Items.length_events_take reached
    have item : (judged [] samples)[i]? = some (.error fault) := by
      rw [getElem_judged hraw reached, List.nil_append,
        verdict_of_undecodable (by rw [index]; exact decoded)]
    obtain ⟨reason, -, rfl⟩ := Sample.decode_eq_error.1 decoded
    exact ⟨⟨reason.message, rfl⟩, item, length_judged_of_fault item⟩
  backwards := by
    intro i raw previous current hraw reached decoded last back
    have index := Items.length_events_take reached
    have item : (judged [] samples)[i]? = some (.error (.timeOrder i previous current)) := by
      rw [getElem_judged hraw reached, List.nil_append,
        verdict_of_goesBack (by rw [index]; exact decoded) last back, index]
    exact ⟨item, length_judged_of_fault item⟩

theorem Delivered.getElem_of_reached {samples : List Value} {items : List (Except Fault Event)}
    (h : Delivered samples items) {i : Nat} (reached : Reached items i) :
    items[i]? = samples[i]?.map (verdict (Items.events (items.take i))) := by
  have index := Items.length_events_take reached
  cases hraw : samples[i]? with
  | none =>
    have past : samples.length ≤ i := List.getElem?_eq_none_iff.1 hraw
    exact List.getElem?_eq_none (Nat.le_trans h.no_longer past)
  | some raw =>
    rcases verdict_cases (Items.events (items.take i)) raw with
      ⟨event, decoded, forward, hv⟩ | ⟨fault, decoded, hv⟩ |
      ⟨previous, current, decoded, last, back, hv⟩
    · rw [index] at decoded
      simp [hv, h.in_order i raw event hraw reached decoded forward]
    · rw [index] at decoded
      simp [hv, (h.undecodable i raw fault hraw reached decoded).2.1]
    · rw [index] at decoded
      simp [hv, index, (h.backwards i raw previous current hraw reached decoded last back).1]

theorem Delivered.none_of_not_reached {samples : List Value} {items : List (Except Fault Event)}
    (h : Delivered samples items) {i : Nat} (hn : ¬Reached items i) : items[i]? = none := by
  refine List.getElem?_eq_none (Nat.le_of_not_lt fun inside => hn ?_)
  intro j hj
  exact h.only_last j (by omega)

/-- Two streams that fit the samples agree place by place. -/
theorem Delivered.unique {samples : List Value} {items others : List (Except Fault Event)}
    (h : Delivered samples items) (k : Delivered samples others) : items = others := by
  -- The laws on a place ask for events in front of it, so it is the common front that grows.
  have agree : ∀ i, items.take i = others.take i := by
    intro i
    induction i with
    | zero => rfl
    | succ i ih =>
      have same : Reached items i ↔ Reached others i := by
        rw [← Items.reached_take, ih, Items.reached_take]
      have next : items[i]? = others[i]? := by
        by_cases reached : Reached items i
        · rw [h.getElem_of_reached reached, k.getElem_of_reached (same.1 reached), ih]
        · rw [h.none_of_not_reached reached, k.none_of_not_reached fun r => reached (same.2 r)]
      rw [List.take_add_one, List.take_add_one, ih, next]
  have whole := agree samples.length
  rwa [List.take_of_length_le h.no_longer, List.take_of_length_le k.no_longer] at whole

theorem delivered_iff {samples : List Value} {items' : List (Except Fault Event)} :
    Delivered samples items' ↔ items' = items samples := by
  rw [items_eq_judged]
  constructor
  · intro h
    exact h.unique (delivered_judged samples)
  · rintro rfl
    exact delivered_judged samples

def InOrder (events : List Event) : Prop := (events.filterMap Event.time?).Pairwise (· ≤ ·)

theorem le_lastTime {events : List Event} (h : InOrder events) {previous : UInt32}
    (last : lastTime? events = some previous) :
    ∀ ms ∈ events.filterMap Event.time?, ms ≤ previous := by
  obtain ⟨init, hinit⟩ := List.getLast?_eq_some_iff.1 last
  rw [InOrder, hinit] at h
  intro ms hms
  rw [hinit] at hms
  rcases List.mem_append.1 hms with hms | hms
  · exact (List.pairwise_append.1 h).2.2 ms hms previous (by simp)
  · obtain rfl : ms = previous := by simpa using hms
    exact UInt32.le_refl ms

theorem inOrder_append {events : List Event} (h : InOrder events) {event : Event}
    (forward : ¬GoesBack events event) : InOrder (events ++ [event]) := by
  cases event with
  | time current =>
    have later : ∀ ms ∈ events.filterMap Event.time?, ms ≤ current := by
      intro ms hms
      cases last : lastTime? events with
      | none =>
        rw [lastTime?, List.getLast?_eq_none_iff] at last
        rw [last] at hms
        cases hms
      | some previous =>
        have notBack : ¬current < previous :=
          fun back => forward ⟨previous, current, last, rfl, back⟩
        exact UInt32.le_trans (le_lastTime h last ms hms) (UInt32.not_lt.1 notBack)
    rw [InOrder, List.filterMap_append, List.pairwise_append]
    refine ⟨h, by simp, ?_⟩
    intro ms hms next hnext
    obtain rfl : next = current := by simpa using hnext
    exact later ms hms
  | reading | deco | other =>
    rw [InOrder, times_append_of_timeless events rfl]
    exact h

theorem inOrder_judged {delivered : List Event} (h : InOrder delivered) (samples : List Value) :
    InOrder (delivered ++ Items.events (judged delivered samples)) := by
  induction samples generalizing delivered with
  | nil => simpa [judged, Items.events] using h
  | cons raw rest ih =>
    rw [judged]
    rcases verdict_cases delivered raw with
      ⟨event, -, forward, hv⟩ | ⟨fault, -, hv⟩ | ⟨previous, current, -, -, -, hv⟩
    · simpa [hv, Items.events] using ih (inOrder_append h forward)
    · simpa [hv, Items.events] using h
    · simpa [hv, Items.events] using h

theorem inOrder_items (samples : List Value) : InOrder (Items.events (items samples)) := by
  rw [items_eq_judged]
  have noneYet : InOrder [] := List.Pairwise.nil
  exact inOrder_judged noneYet samples

def advance (cursor : Cursor) : Cursor :=
  match cursor.next? with
  | none => cursor
  | some (_, behind) => behind

def answer (cursor : Cursor) : Nat → Option (Except Fault Event)
  | 0 => cursor.next?.map Prod.fst
  | k + 1 => answer cursor.advance k

theorem answer_of_silent {cursor : Cursor} (h : cursor.next? = none) (k : Nat) :
    cursor.answer k = none := by
  have stays : cursor.advance = cursor := by simp [advance, h]
  induction k with
  | zero => simp [answer, h]
  | succ k ih => rw [answer, stays, ih]

/-- An item uses up one sample, and a fault ends the delivery. -/
theorem next_some {cursor after : Cursor} {item : Except Fault Event}
    (h : cursor.next? = some (item, after)) :
    cursor.rest.length = after.rest.length + 1 ∧
      ((∃ event, item = .ok event) ∨ after.failed = true) := by
  unfold next? at h
  split at h
  · cases h
  · cases h
  · rename_i raw rest hf hrest
    dsimp only at h
    split at h
    · rename_i event lastTime ht
      obtain ⟨rfl, rfl⟩ := Prod.mk.inj (Option.some.inj h)
      exact ⟨by simp [hrest], .inl ⟨event, rfl⟩⟩
    · obtain ⟨rfl, rfl⟩ := Prod.mk.inj (Option.some.inj h)
      exact ⟨by simp [hrest], .inr rfl⟩

theorem getElem_take {k n : Nat} (h : k < n) (cursor : Cursor) :
    (take n cursor)[k]? = cursor.answer k := by
  induction n generalizing k cursor with
  | zero => omega
  | succ n ih =>
    cases hn : cursor.next? with
    | none => simp [take, hn, answer_of_silent hn]
    | some result =>
      obtain ⟨item, after⟩ := result
      cases k with
      | zero => simp [take, hn, answer]
      | succ k =>
        have step : cursor.advance = after := by simp [advance, hn]
        simp [take, hn, answer, step, ih (by omega : k < n) after]

theorem answer_past_end {k : Nat} {cursor : Cursor} (h : cursor.rest.length ≤ k) :
    cursor.answer k = none := by
  induction k generalizing cursor with
  | zero =>
    have done : cursor.rest = [] := List.length_eq_zero_iff.1 (by omega)
    simp [answer, next_end done]
  | succ k ih =>
    cases hn : cursor.next? with
    | none => exact answer_of_silent hn (k + 1)
    | some result =>
      obtain ⟨item, after⟩ := result
      have step : cursor.advance = after := by simp [advance, hn]
      have used := (next_some hn).1
      rw [answer, step]
      exact ih (by omega)

theorem answer_start (samples : List Value) (k : Nat) :
    (start samples).answer k = (items samples)[k]? := by
  by_cases h : k < samples.length
  · exact (getElem_take h (start samples)).symm
  · have within := length_judged_le [] samples
    rw [answer_past_end (show (start samples).rest.length ≤ k by simpa [start] using h),
      List.getElem?_eq_none (by rw [items_eq_judged]; omega)]

/-- A call is answered by an event, or all calls after it by nothing. -/
theorem event_or_silence (cursor : Cursor) (k m : Nat) :
    (∃ event, cursor.answer k = some (.ok event)) ∨ cursor.answer (k + 1 + m) = none := by
  induction k generalizing cursor with
  | zero =>
    cases hn : cursor.next? with
    | none => exact .inr (answer_of_silent hn _)
    | some result =>
      obtain ⟨item, after⟩ := result
      have step : cursor.advance = after := by simp [advance, hn]
      rcases (next_some hn).2 with ⟨event, rfl⟩ | failed
      · exact .inl ⟨event, by simp [answer, hn]⟩
      · right
        rw [show 0 + 1 + m = m + 1 by omega, answer, step]
        exact answer_of_silent (next_failed failed) m
  | succ k ih =>
    rw [show k + 1 + 1 + m = (k + 1 + m) + 1 by omega, answer, answer]
    exact ih cursor.advance

/-- The items of a dump are exactly what its samples are delivered as, call by call; their times
never go back, and behind a fault or the end every call is answered by nothing. -/
theorem items_delivered (samples : List Value) :
    (∀ items', Delivered samples items' ↔ items' = items samples) ∧
    (∀ k, (start samples).answer k = (items samples)[k]?) ∧
    ((Items.events (items samples)).filterMap Event.time?).Pairwise (· ≤ ·) ∧
    ∀ k m, (∃ event, (start samples).answer k = some (.ok event)) ∨
      (start samples).answer (k + 1 + m) = none :=
  ⟨fun _ => delivered_iff, answer_start samples, inOrder_items samples,
    event_or_silence (start samples)⟩

end Cursor

end DiveTable
