import DiveTable.Proofs.PlainSpelling
import DiveTable.Proofs.SoundValues

/-! # Documents with a sound text

A record looks at the values of its fields and at the texts of its keys; what stands under another
name is passed over, and need only be spelled. Main statement: what a document looks at is sound,
or the document is refused, so an accepted text is sound just when all that is passed over is. -/
namespace DiveTable

namespace Json

inductive TakenFor (names : List String) (name : String) : Expr → Expr → Prop
  | member {members : List (List UInt8 × Expr)} {m : List UInt8 × Expr} (mem : m ∈ members)
    (named : Named name m) : TakenFor names name (.object members) m.2
  | item {items : List Expr} {i : Nat} {expr : Expr} (place : names[i]? = some name)
    (h : items[i]? = some expr) : TakenFor names name (.array items) expr

inductive PassedOver (names : List String) : Expr → Expr → Prop
  | member {members : List (List UInt8 × Expr)} {m : List UInt8 × Expr} (mem : m ∈ members)
    (unknown : ∀ name ∈ names, ¬Named name m) : PassedOver names (.object members) m.2

/-- A record whose keys spell texts and whose fields have the property. -/
inductive HasFields (names : List String) (p : String → Expr → Prop) : Expr → Prop
  | object {members : List (List UInt8 × Expr)} (keys : ∀ m ∈ members, ∃ key, Named key m)
    (fields : ∀ m ∈ members, ∀ name ∈ names, Named name m → p name m.2) :
    HasFields names p (.object members)
  | array {items : List Expr} (fields : ∀ (i : Nat) (expr : Expr), items[i]? = some expr →
    ∃ name, names[i]? = some name ∧ p name expr) : HasFields names p (.array items)

section

variable {names : List String} {p : String → Expr → Prop} {expr inner : Expr}

theorem Expr.Sound.takenFor {name : String} (sound : expr.Sound)
    (h : TakenFor names name expr inner) : inner.Sound := by
  cases h with
  | member mem =>
    cases sound with
    | object keys values => exact values _ mem
  | item _ h =>
    cases sound with
    | array items => exact items _ (List.mem_of_getElem? h)

theorem Expr.Sound.passedOver (sound : expr.Sound) (h : PassedOver names expr inner) :
    inner.Sound := by
  cases h with
  | member mem =>
    cases sound with
    | object keys values => exact values _ mem

/-- A record is sound if its fields are and all that is passed over is. -/
theorem HasFields.sound (h : HasFields names p expr)
    (fields : ∀ name inner, TakenFor names name expr inner → p name inner → inner.Sound)
    (others : ∀ inner, PassedOver names expr inner → inner.Sound) : expr.Sound := by
  cases h with
  | object keys checked =>
    refine .object keys fun m mem => ?_
    by_cases known : ∃ name ∈ names, Named name m
    · obtain ⟨name, mem', named⟩ := known
      exact fields name m.2 (.member mem named) (checked m mem name mem' named)
    · exact others m.2 (.member mem fun name mem' named => known ⟨name, mem', named⟩)
  | array checked =>
    refine .array fun item mem => ?_
    obtain ⟨i, h⟩ := List.getElem?_of_mem mem
    obtain ⟨name, place, holds⟩ := checked i item h
    exact fields name item (.item place h) holds

end

namespace Layout

variable {σ τ : Type} {layout : Layout σ τ} {expr : Expr} {record : τ}

/-- In a list that is read each item is taken for the field at its place. -/
theorem slot_of_item {slots : List (Slot σ)} {draft : σ} {items : List Expr}
    (read : layout.ofItems? slots draft items = some record) {i : Nat} (h : items[i]? = some expr) :
    ∃ slot update, slots[i]? = some slot ∧ slot.update? expr = some update := by
  induction items generalizing slots draft i with
  | nil => cases h
  | cons first items ih =>
    cases slots with
    | nil => cases read
    | cons slot slots =>
      obtain ⟨update, updated, rest⟩ := Option.bind_eq_some_iff.1 read
      cases i with
      | zero =>
        cases h
        exact ⟨slot, update, rfl, updated⟩
      | succ i => exact ih rest h

/-- What is read as a record has the property in all its fields. -/
theorem hasFields_of_read (separate : layout.Separate) {p : String → Expr → Prop}
    (checks : ∀ slot ∈ layout.slots, ∀ inner update, slot.update? inner = some update →
      p slot.name inner)
    (read : layout.of? expr = some record) : HasFields layout.names p expr := by
  cases expr with
  | object members =>
    refine .object ?_ ?_
    · intro m mem
      obtain ⟨draft, folded, -⟩ := Option.bind_eq_some_iff.1 read
      obtain ⟨key, -, -, named, -⟩ := exists_put folded mem
      exact ⟨key, named⟩
    · intro m mem name known named
      obtain ⟨slot, mem', rfl⟩ := List.mem_map.1 known
      obtain ⟨front, rest, rfl⟩ := List.append_of_mem mem
      obtain ⟨-, update, updated, -, -⟩ := ofMembers_named separate mem' named read
      exact checks slot mem' m.2 update updated
  | array items =>
    refine .array fun i item h => ?_
    obtain ⟨slot, update, place, updated⟩ := slot_of_item read h
    refine ⟨slot.name, ?_, checks slot (List.mem_of_getElem? place) item update updated⟩
    rw [names, List.getElem?_map, place]
    rfl
  | null | boolean | number | string => cases read

end Layout

end Json

open Json

namespace Document

/-- A value that may be taken for a field: a sound one, or a date and time with sound fields. -/
def CheckedField (name : String) (expr : Expr) : Prop :=
  expr.Sound ∨ name = "datetime" ∧ HasFields dateTimeNames (fun _ => Expr.Sound) expr

/-- All that the document looks at is sound. -/
def Checked : Expr → Prop := HasFields fieldNames CheckedField

/-- A value that the document passes over, in itself or in its date and time. -/
def Skips (expr skipped : Expr) : Prop :=
  PassedOver fieldNames expr skipped ∨
    ∃ date, TakenFor fieldNames "datetime" expr date ∧ PassedOver dateTimeNames date skipped

theorem takesSound_slot {α σ : Type} {name : String} {isSet : σ → Bool} {of? : Expr → Option α}
    {set : α → σ → σ} (h : TakesSound of?) : TakesSound (slot name isSet of? set).update? :=
  takesSound_map h set

theorem takesSound_whole (limit : Nat) {α : Type} (f : Nat → α) :
    TakesSound fun expr => (expr.numeric? (Number.natural? limit)).map f :=
  takesSound_map (takesSound_numeric _) f

theorem hasFields_dateTime {expr : Expr} {dateTime : DateTime}
    (read : dateTimeLayout.of? expr = some dateTime) :
    HasFields dateTimeNames (fun _ => Expr.Sound) expr := by
  refine Layout.hasFields_of_read separate_dateTime ?_ read
  simp only [dateTimeLayout, List.forall_mem_cons, List.not_mem_nil, false_implies, implies_true,
    and_true]
  refine ⟨?_, ?_, ?_, ?_, ?_, ?_⟩
  all_goals exact takesSound_slot (takesSound_whole _ _)

theorem checkedField_slot {α σ : Type} {name : String} {isSet : σ → Bool}
    {of? : Expr → Option α} {set : α → σ → σ} (h : TakesSound of?) (inner : Expr) (update : σ → σ)
    (updated : (slot name isSet of? set).update? inner = some update) : CheckedField name inner :=
  .inl (takesSound_slot h inner update updated)

theorem checkedField_dateTime (inner : Expr) (update : Draft → Draft)
    (updated : (slot "datetime" (fun d => d.dateTime.isSome) (Expr.optional? dateTimeLayout.of?)
      fun x (d : Draft) => { d with dateTime := some x }).update? inner = some update) :
    CheckedField "datetime" inner := by
  obtain ⟨a, value, -⟩ := Option.map_eq_some_iff.1 updated
  rcases optional_cases value with rfl | ⟨dateTime, read⟩
  · exact .inl .null
  · exact .inr ⟨rfl, hasFields_dateTime read⟩

/-- What is read as a document is sound wherever the document looks at it. -/
theorem checked_of_read {expr : Expr} {document : Document} (h : layout.of? expr = some document) :
    Checked expr := by
  refine Layout.hasFields_of_read separate_document ?_ h
  simp only [layout, List.forall_mem_cons, List.not_mem_nil, false_implies, implies_true, and_true]
  refine ⟨?_, ?_, ?_, checkedField_dateTime, ?_, ?_, ?_⟩
  · exact checkedField_slot takesSound_text
  · exact checkedField_slot takesSound_text
  · exact checkedField_slot takesSound_text
  · exact checkedField_slot (takesSound_optional (takesSound_numeric _))
  · exact checkedField_slot (takesSound_optional (takesSound_whole _ _))
  · exact checkedField_slot (takesSound_values _)

theorem sound_iff_skipped {expr : Expr} (checked : Checked expr) :
    expr.Sound ↔ ∀ skipped, Skips expr skipped → skipped.Sound := by
  constructor
  · rintro sound skipped (passed | ⟨date, taken, passed⟩)
    · exact sound.passedOver passed
    · exact (sound.takenFor taken).passedOver passed
  · intro others
    refine checked.sound ?_ fun inner passed => others inner (.inl passed)
    rintro name inner taken (sound | ⟨rfl, fields⟩)
    · exact sound
    · exact fields.sound (fun _ _ _ sound => sound)
        fun skipped passed => others skipped (.inr ⟨inner, taken, passed⟩)

/-! ## A number out of range -/

def overflow : List UInt8 × Expr :=
  (bytesOf "x", .number ⟨false, 1, [], [], some ⟨false, none, 4, [0, 0]⟩, by decide⟩)

def overflowMembers : List (List UInt8 × Expr) :=
  [(bytesOf "format_version", .string (bytesOf "1.0.0")),
    (bytesOf "vendor", .string (bytesOf "Divesoft")),
    (bytesOf "product", .string (bytesOf "Freedom")), (bytesOf "samples", .array []), overflow]

def overflowText : List UInt8 :=
  bytesOf ("\x7b\"format_version\":\"1.0.0\",\"vendor\":\"Divesoft\",\"product\":\"Freedom\"," ++
    "\"samples\":[],\"x\":1e400\x7d")

theorem spelled_overflowText : Spelled (.object overflowMembers) overflowText := by
  have text : overflowText = [] ++ Expr.print (.object overflowMembers) [] := by decide +kernel
  rw [text]
  exact spelled_print (by decide +kernel) nofun nofun

theorem not_sound_overflow : ¬overflow.2.Sound := by
  intro sound
  cases sound with
  | @number literal n value _ =>
    have outOfRange : Literal.number? ⟨false, 1, [], [], some ⟨false, none, 4, [0, 0]⟩, by decide⟩ =
        none := by decide +kernel
    rw [outOfRange] at value
    cases value

end Document

namespace Dump

open Document

theorem checked_of_parse {expr : Expr} {input : List UInt8} {document : Document}
    (spelled : Spelled expr input) (h : Document.parse input = .ok document) : Checked expr := by
  have meaning := parse_spelled spelled
  rw [h] at meaning
  exact checked_of_read meaning.symm

/-- A text is refused unless it spells a document, and one that is sound wherever the document
looks at it. One that is accepted is sound as a whole, and well-formed UTF-8, just when all that
the document passes over is sound. -/
theorem sound_but_skipped (input : List UInt8) :
    ((¬∃ expr, Spelled expr input) → ∃ fault, parse input = .error (.json fault)) ∧
    ∀ expr, Spelled expr input →
      (¬Checked expr → ∃ fault, parse input = .error (.json fault)) ∧
      ∀ dump, parse input = .ok dump →
        Checked expr ∧
        (expr.Sound ∧ (∃ text, input = Utf8.encode text) ↔
          ∀ skipped, Skips expr skipped → skipped.Sound) := by
  refine ⟨?_, ?_⟩
  · intro noValue
    exact json_of_unread fun document read => noValue (Document.spelled_of_parse read)
  · intro expr spelled
    refine ⟨?_, ?_⟩
    · intro unchecked
      exact json_of_unread fun document read => unchecked (checked_of_parse spelled read)
    · intro dump accepted
      obtain ⟨document, read, -⟩ := document_of_parse accepted
      have checked := checked_of_parse spelled read
      have whole := sound_iff_skipped checked
      refine ⟨checked, ?_, ?_⟩
      · rintro ⟨sound, -⟩
        exact whole.1 sound
      · intro others
        have sound := whole.2 others
        exact ⟨sound, isText_of_spelled spelled sound⟩

/-- A number out of range is accepted where the document does not look. -/
theorem overflow_accepted : ∃ dump, parse overflowText = .ok dump ∧
    Spelled (.object overflowMembers) overflowText ∧ ¬(Expr.object overflowMembers).Sound := by
  have read : (parse overflowText).toOption.isSome = true := by decide +kernel
  obtain ⟨dump, value⟩ := Option.isSome_iff_exists.1 read
  refine ⟨dump, eq_ok_of_toOption value, spelled_overflowText, ?_⟩
  intro sound
  cases sound with
  | object keys values =>
    have mem : overflow ∈ overflowMembers := List.mem_of_getElem? (rfl : overflowMembers[4]? = _)
    exact not_sound_overflow (values overflow mem)

end Dump

end DiveTable
