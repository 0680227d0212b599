import DiveTable.Proofs.DumpTable
import DiveTable.Proofs.FiniteNumbers

/-! # Readings of a dump are finite

Only finite numbers come out of a text. They are kept in values, records and events as they are,
so no depth, temperature or pressure of a dump is infinite or no number, and each cell of a table
that shows one is a plain decimal. -/
namespace DiveTable

open Json

namespace Json

inductive Value.Finite : Value → Prop
  | null : Finite .null
  | boolean (b : Bool) : Finite (.boolean b)
  | number {n : Number} (h : n.IsFinite) : Finite (.number n)
  | string (text : String) : Finite (.string text)
  | array {items : List Value} (h : ∀ v ∈ items, Finite v) : Finite (.array items)
  | object {members : Members} (h : ∀ m ∈ members, Finite m.2) : Finite (.object members)

theorem Value.Finite.of_number {n : Number} (h : Value.Finite (.number n)) : n.IsFinite := by
  cases h with
  | number finite => exact finite

theorem Value.Finite.of_array {items : List Value} (h : Value.Finite (.array items)) :
    ∀ v ∈ items, v.Finite := by
  cases h with
  | array finite => exact finite

theorem Value.Finite.of_object {members : Members} (h : Value.Finite (.object members)) :
    ∀ m ∈ members, m.2.Finite := by
  cases h with
  | object finite => exact finite

theorem mem_insert {key : String} {value : Value} {members : Members} {m : String × Value}
    (h : m ∈ members.insert key value) : m = (key, value) ∨ m ∈ members := by
  induction members with
  | nil => exact .inl (List.mem_singleton.1 h)
  | cons first rest ih =>
    obtain ⟨k, v⟩ := first
    unfold Members.insert at h
    by_cases before : key < k
    · rw [if_pos before] at h
      exact List.mem_cons.1 h
    · rw [if_neg before] at h
      by_cases same : key = k
      · rw [if_pos same] at h
        rcases List.mem_cons.1 h with new | old
        · exact .inl new
        · exact .inr (List.mem_cons_of_mem _ old)
      · rw [if_neg same] at h
        rcases List.mem_cons.1 h with first | later
        · exact .inr (first ▸ List.mem_cons_self)
        · rcases ih later with new | old
          · exact .inl new
          · exact .inr (List.mem_cons_of_mem _ old)

section

variable {α β γ σ τ : Type} {p : α → Prop} {q : β → Prop} {held : σ → Prop}

theorem Yields.bind {read : Read α} {f : α × List UInt8 → Read β} (h : Yields p read)
    (hf : ∀ a rest, p a → Yields q (f (a, rest))) : Yields q (Except.bind read f) := by
  cases read with
  | error stop => exact yields_error stop
  | ok pair => exact hf pair.1 pair.2 (h pair.1 pair.2 rfl)

theorem yields_bind {step : Except Stop γ} {f : γ → Read β} (hf : ∀ c, Yields q (f c)) :
    Yields q (Except.bind step f) := by
  cases step with
  | error stop => exact yields_error stop
  | ok c => exact hf c

theorem yields_true (read : Read α) : Yields (fun _ => True) read := fun _ _ _ => trivial

theorem foldItems_yields {item : σ → List UInt8 → Read σ}
    (kept : ∀ state s, held state → Yields held (item state s)) (fuel : Nat) (first : Bool)
    {state : σ} (h : held state) (s : List UInt8) :
    Yields held (foldItems item fuel first state s) := by
  induction fuel generalizing first state s with
  | zero => exact yields_error _
  | succ fuel ih =>
    unfold foldItems
    refine yields_bind fun entry => ?_
    cases entry with
    | closed rest => exact yields_ok h rest
    | next s => exact (kept state s h).bind fun state s h => ih false h s

theorem foldMembers_yields {member : σ → String → List UInt8 → Read σ}
    (kept : ∀ state key s, held state → Yields held (member state key s)) (fuel : Nat)
    (first : Bool) {state : σ} (h : held state) (s : List UInt8) :
    Yields held (foldMembers member fuel first state s) := by
  induction fuel generalizing first state s with
  | zero => exact yields_error _
  | succ fuel ih =>
    unfold foldMembers
    refine yields_bind fun entry => ?_
    cases entry with
    | closed rest => exact yields_ok h rest
    | next s =>
      refine (yields_true (readString s)).bind fun key s _ => ?_
      exact (kept state key s h).bind fun state s h => ih false h s

end

theorem readKeyword_finite {value : Value} (h : value.Finite) (letters s : List UInt8) :
    Yields Value.Finite (readKeyword letters value s) := by
  unfold readKeyword
  cases keyword letters s with
  | error stop => exact yields_error stop
  | ok rest => exact yields_ok h rest

/-- What a value holds inside is read with one list or object less to open. -/
theorem readValue_step {fuel budget : Nat}
    (inside : ∀ smaller, budget = smaller + 1 →
      ∀ s, Yields Value.Finite (readValue fuel smaller s)) (s : List UInt8) :
    Yields Value.Finite (readValue fuel budget s) := by
  unfold readValue
  cases skipSpace s with
  | nil => exact yields_error _
  | cons b rest =>
    dsimp only
    repeat' split
    · exact readKeyword_finite .null _ _
    · exact readKeyword_finite (.boolean true) _ _
    · exact readKeyword_finite (.boolean false) _ _
    · exact (yields_true _).map fun text _ _ => .string text
    · exact (readNumber_finite _).map fun _ _ finite => .number finite
    · exact yields_error _
    · refine Yields.bind (p := fun items : List Value => ∀ v ∈ items, v.Finite) ?_ ?_
      · apply foldItems_yields
        · intro items s h
          refine (inside _ rfl s).bind ?_
          intro v s finite
          exact yields_ok (List.forall_mem_cons.2 ⟨finite, h⟩) s
        · exact List.forall_mem_nil _
      · intro items s h
        exact yields_ok (.array fun v hv => h v (List.mem_reverse.1 hv)) s
    · exact yields_error _
    · refine Yields.bind (p := fun members : Members => ∀ m ∈ members, m.2.Finite) ?_ ?_
      · apply foldMembers_yields
        · intro members key s h
          refine yields_bind fun s => ?_
          refine (inside _ rfl s).bind ?_
          intro v s finite
          refine yields_ok ?_ s
          intro m hm
          rcases mem_insert hm with rfl | old
          · exact finite
          · exact h m old
        · exact List.forall_mem_nil _
      · intro members s h
        exact yields_ok (.object h) s
    · exact yields_error _

theorem readValue_finite (fuel budget : Nat) (s : List UInt8) :
    Yields Value.Finite (readValue fuel budget s) := by
  induction budget generalizing s with
  | zero =>
    apply readValue_step
    intro smaller h
    cases h
  | succ budget ih =>
    apply readValue_step
    intro smaller h
    cases h
    exact ih

/-- What a draft of a record keeps while its fields are read, and what a record has then. -/
structure Record.Keeps {σ τ : Type} (record : Record σ τ) (held : σ → Prop) (done : τ → Prop) :
    Prop where
  empty : held record.empty
  read : ∀ field ∈ record.fields, ∀ draft s, held draft → Yields held (field.read draft s)
  complete : ∀ draft value, held draft → record.complete draft = .ok value → done value

namespace Record.Keeps

variable {σ τ : Type} {record : Record σ τ} {held : σ → Prop} {done : τ → Prop}

theorem readMember (h : record.Keeps held done) (fuel : Nat) {draft : σ} (hd : held draft)
    (key : String) (s : List UInt8) : Yields held (record.readMember fuel draft key s) := by
  unfold Record.readMember
  cases found : record.fields.find? fun field => field.name == key with
  | none =>
    dsimp only
    cases skipColon s with
    | error stop => exact yields_error stop
    | ok s =>
      dsimp only
      cases skipValue fuel s with
      | error stop => exact yields_error stop
      | ok rest => exact yields_ok hd rest
  | some field =>
    dsimp only
    by_cases again : field.isSet draft = true
    · rw [if_pos again]
      exact yields_error _
    · rw [if_neg again]
      cases skipColon s with
      | error stop => exact yields_error stop
      | ok s => exact h.read field (List.mem_of_find?_eq_some found) draft s hd

theorem readObject (h : record.Keeps held done) (fuel : Nat) (s : List UInt8) :
    Yields done (record.readObject fuel s) := by
  have members : Yields held (foldMembers (record.readMember fuel) fuel true record.empty s) :=
    foldMembers_yields (fun _ key s hd => h.readMember fuel hd key s) fuel true h.empty s
  unfold Record.readObject
  cases read : foldMembers (record.readMember fuel) fuel true record.empty s with
  | error stop => exact yields_error stop
  | ok pair =>
    dsimp only
    cases whole : record.complete pair.1 with
    | error name => exact yields_error _
    | ok value => exact yields_ok (h.complete pair.1 value (members _ _ read) whole) pair.2

theorem ended (h : record.Keeps held done) (index : Nat) {draft : σ} (hd : held draft)
    (rest : List UInt8) : Yields done (readFields.ended record index draft rest) := by
  unfold readFields.ended
  cases whole : record.complete draft with
  | error name => exact yields_error _
  | ok value => exact yields_ok (h.complete draft value hd whole) rest

theorem readFields (h : record.Keeps held done) {fields : List (Field σ)}
    (sub : ∀ field ∈ fields, field ∈ record.fields) (index : Nat) {draft : σ} (hd : held draft)
    (s : List UInt8) : Yields done (record.readFields index fields draft s) := by
  induction fields generalizing index draft s with
  | nil =>
    unfold Record.readFields
    cases closeList s with
    | error stop => exact yields_error stop
    | ok rest => exact h.ended index hd rest
  | cons field fields ih =>
    unfold Record.readFields
    cases nextItem (index == 0) s with
    | error stop => exact yields_error stop
    | ok entry =>
      cases entry with
      | closed rest => exact h.ended index hd rest
      | next s =>
        dsimp only
        cases read : field.read draft s with
        | error stop => exact yields_error stop
        | ok pair =>
          have kept := h.read field (sub field List.mem_cons_self) draft s hd _ _ read
          exact ih (fun f hf => sub f (List.mem_cons_of_mem _ hf)) _ kept _

/-- In either form a record is completed from a draft that has been kept. -/
theorem yields (h : record.Keeps held done) (fuel : Nat) (s : List UInt8) :
    Yields done (record.read fuel s) := by
  unfold Record.read
  cases skipSpace s with
  | nil => exact yields_error _
  | cons b rest =>
    dsimp only
    repeat' split
    · exact h.readFields (fun _ hf => hf) 0 h.empty rest
    · exact h.readObject fuel rest
    · exact yields_error _

end Record.Keeps

end Json

namespace Document

def Draft.Finite (draft : Draft) : Prop :=
  (∀ x, draft.maxDepth = some (some x) → x.isFinite = true) ∧
    ∀ samples, draft.samples = some samples → ∀ v ∈ samples, v.Finite

def Finite (document : Document) : Prop :=
  (∀ x, document.maxDepth = some x → x.isFinite = true) ∧ ∀ v ∈ document.samples, v.Finite

theorem fill_yields {α σ : Type} {p : α → Prop} {held : σ → Prop} {set : α → σ} {read : Read α}
    (h : Yields p read) (hset : ∀ a, p a → held (set a)) : Yields held (fill set read) := by
  cases read with
  | error stop => exact yields_error stop
  | ok pair => exact yields_ok (hset pair.1 (h pair.1 pair.2 rfl)) pair.2

theorem readBinary64_finite (s : List UInt8) :
    Yields (fun x : Binary64 => x.isFinite = true) (readBinary64 s) := by
  unfold readBinary64 readNumeric
  cases skipSpace s with
  | nil => exact yields_error _
  | cons b rest =>
    dsimp only
    by_cases starts : startsNumber b = true
    · rw [if_pos starts]
      cases read : readNumber (b :: rest) with
      | error stop => exact yields_error stop
      | ok pair =>
        have finite : pair.1.toBinary64.isFinite = true := readNumber_finite _ _ _ read
        exact yields_ok (p := fun x : Binary64 => x.isFinite = true) finite pair.2
    · rw [if_neg starts]
      exact yields_error _

theorem readOptional_yields {α : Type} {p : α → Prop} {read : List UInt8 → Read α}
    (h : ∀ s, Yields p (read s)) (s : List UInt8) :
    Yields (fun value : Option α => ∀ a, value = some a → p a) (readOptional read s) := by
  have present : ∀ s, Yields (fun value : Option α => ∀ a, value = some a → p a)
      ((read s).map fun pair => (some pair.1, pair.2)) := by
    intro s
    refine (h s).map ?_
    intro a rest ha b hb
    cases hb
    exact ha
  unfold readOptional
  cases skipSpace s with
  | nil => exact present []
  | cons b rest =>
    dsimp only
    by_cases null : b = Ascii.lowerN
    · rw [if_pos null]
      cases keyword nullLetters rest with
      | error stop => exact yields_error stop
      | ok rest =>
        refine yields_ok ?_ rest
        intro a ha
        cases ha
    · rw [if_neg null]
      exact present (b :: rest)

theorem readValues_finite (fuel budget : Nat) (s : List UInt8) :
    Yields (fun values : List Value => ∀ v ∈ values, v.Finite) (readValues fuel budget s) := by
  unfold readValues
  cases skipSpace s with
  | nil => exact yields_error _
  | cons b rest =>
    dsimp only
    by_cases opens : b = Ascii.openBracket
    · rw [if_pos opens]
      refine Yields.map (p := fun items : List Value => ∀ v ∈ items, v.Finite) ?_ ?_
      · apply foldItems_yields
        · intro items s h
          refine (readValue_finite fuel budget s).map ?_
          intro v rest finite
          exact List.forall_mem_cons.2 ⟨finite, h⟩
        · exact List.forall_mem_nil _
      · intro items rest h v hv
        exact h v (List.mem_reverse.1 hv)
    · rw [if_neg opens]
      exact yields_error _

/-- Of the fields of a document only the greatest depth and the samples hold numbers that could
be infinite. -/
theorem record_keeps (fuel : Nat) : (record fuel).Keeps Draft.Finite Finite where
  empty := by
    constructor
    · intro x h
      cases h
    · intro samples h
      cases h
  read := by
    intro field hfield draft s finite
    simp only [record, List.mem_cons, List.not_mem_nil, or_false] at hfield
    rcases hfield with rfl | rfl | rfl | rfl | rfl | rfl | rfl
    · exact fill_yields (yields_true _) fun _ _ => finite
    · exact fill_yields (yields_true _) fun _ _ => finite
    · exact fill_yields (yields_true _) fun _ _ => finite
    · exact fill_yields (yields_true _) fun _ _ => finite
    · refine fill_yields (readOptional_yields readBinary64_finite s) ?_
      intro depth hdepth
      exact ⟨fun x hx => hdepth x (Option.some.inj hx), finite.2⟩
    · exact fill_yields (yields_true _) fun _ _ => finite
    · refine fill_yields (readValues_finite fuel _ s) ?_
      intro samples hsamples
      exact ⟨finite.1, fun values hvalues => Option.some.inj hvalues ▸ hsamples⟩
  complete := by
    intro draft document finite whole
    obtain ⟨-, maxDepth, -, samples⟩ := complete_eq_ok whole
    constructor
    · intro x hx
      rw [maxDepth, Option.getD_eq_iff] at hx
      exact finite.1 x (hx.resolve_right (by simp))
    · intro v hv
      rw [samples] at hv
      cases known : draft.samples with
      | none =>
        rw [known] at hv
        cases hv
      | some values =>
        rw [known] at hv
        exact finite.2 values known v hv

theorem finite_of_parse {input : List UInt8} {document : Document}
    (h : parse input = .ok document) : document.Finite := by
  obtain ⟨rest, read, -⟩ := record_of_parse h
  exact (record_keeps input.length).yields input.length input document rest read

end Document

namespace Dump

theorem finite_of_parse {input : List UInt8} {dump : Dump} (h : parse input = .ok dump) :
    (∀ x, dump.maxDepth? = some x → x.isFinite = true) ∧ ∀ v ∈ dump.samples, v.Finite := by
  obtain ⟨document, read, judged⟩ := document_of_parse h
  obtain ⟨-, maxDepth, -, samples⟩ := ofDocument_eq_ok judged
  rw [maxDepth, samples]
  exact Document.finite_of_parse read

end Dump

def Event.floats : Event → List Binary64
  | .time _ => []
  | .reading _ x => [x]
  | .deco state => [state.depth]
  | .other _ => []

namespace Sample

theorem finite_of_field {v w : Value} (h : v.Finite) {name : String} {place : Nat}
    (field : v.field? name place = some w) : w.Finite := by
  cases v with
  | array items => exact h.of_array w (List.mem_of_getElem? field)
  | object members =>
    obtain ⟨before, after, rfl, -⟩ := List.lookup_eq_some_iff.1 field
    exact h.of_object (name, w) (List.mem_append_right before List.mem_cons_self)
  | null | boolean | number | string => cases field

theorem finite_of_sample {raw : Value} {sample : Sample} (h : raw.Finite)
    (decoded : ofValue raw = .ok sample) : sample.value.Finite := by
  rw [(fields_of_ofValue decoded).2]
  cases field : raw.field? "value" 1 with
  | none => exact .null
  | some v => exact finite_of_field h field

theorem isFinite_of_default {raw : Option Value} {x : Binary64}
    (h : ∀ v, raw = some v → v.Finite) (read : orDefault binary64 .zero raw = .ok x) :
    x.isFinite = true := by
  cases raw with
  | none =>
    cases read
    exact isFinite_zero false
  | some v =>
    change binary64 v = .ok x at read
    unfold binary64 at read
    split at read
    · cases read
      exact (h _ rfl).of_number
    · cases read

theorem isFinite_of_deco {raw : Value} {deco : DecoSample} (h : raw.Finite)
    (decoded : decoOfValue raw = .ok deco) : deco.depth.isFinite = true :=
  isFinite_of_default (fun _ => finite_of_field h) (depth_of_decoOfValue decoded)

/-- Whatever a sample stands for carries the numbers of its value. -/
theorem floats_finite {raw : Value} {event : Event} (h : raw.Finite)
    (decoded : eventOfValue raw = .ok event) : ∀ x ∈ event.floats, x.isFinite = true := by
  obtain ⟨sample, shaped, decoded⟩ := eventOfValue_eq_ok decoded
  have value := finite_of_sample h shaped
  rcases event_cases decoded with
    ⟨-, ms, rfl⟩ | ⟨-, deco, status, stop, rfl⟩ | ⟨q, n, -, number, rfl⟩ | ⟨-, -, -, rfl⟩
  · intro x hx
    cases hx
  · intro x hx
    rw [List.mem_singleton.1 hx]
    exact isFinite_of_deco value stop
  · intro x hx
    rw [number] at value
    rw [List.mem_singleton.1 hx]
    exact value.of_number
  · intro x hx
    cases hx

end Sample

namespace Cursor

/-- Every event that is delivered is what one of the samples decodes to. -/
theorem decoded_of_judged {delivered : List Event} {samples : List Value} {event : Event}
    (h : .ok event ∈ judged delivered samples) :
    ∃ raw ∈ samples, Sample.eventOfValue raw = .ok event := by
  induction samples generalizing delivered with
  | nil => cases h
  | cons raw rest ih =>
    unfold judged at h
    rcases verdict_cases delivered raw with
      ⟨first, decoded, -, hv⟩ | ⟨fault, -, hv⟩ | ⟨previous, current, -, -, -, hv⟩
    · rw [hv] at h
      rcases List.mem_cons.1 h with here | later
      · cases here
        exact ⟨raw, List.mem_cons_self, Sample.decode_eq_ok.1 decoded⟩
      · obtain ⟨other, hother, decoded⟩ := ih later
        exact ⟨other, List.mem_cons_of_mem _ hother, decoded⟩
    · rw [hv] at h
      cases List.mem_singleton.1 h
    · rw [hv] at h
      cases List.mem_singleton.1 h

end Cursor

namespace Dump

theorem floats_finite {input : List UInt8} {dump : Dump} (accepted : parse input = .ok dump)
    {event : Event} (h : .ok event ∈ dump.items) : ∀ x ∈ event.floats, x.isFinite = true := by
  rw [items, Cursor.items_eq_judged] at h
  obtain ⟨raw, hraw, decoded⟩ := Cursor.decoded_of_judged h
  exact Sample.floats_finite ((finite_of_parse accepted).2 raw hraw) decoded

end Dump

end DiveTable
