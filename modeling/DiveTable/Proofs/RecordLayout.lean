import DiveTable.Json.Record
import DiveTable.Proofs.SkippedValues
import DiveTable.Proofs.TypedReading
import Mathlib.Data.List.Forall2

/-! # Records and their layout

A layout tells what a record takes from a value as it is written. In an object each member counts
by the text of its key: one that names no field is left out, and a field that comes twice spoils
the record. In a list each item counts by its place. -/
namespace DiveTable.Json

open Ascii

/-- A field of a draft `σ`: what its value does to the draft, if the value has the right type. -/
structure Slot (σ : Type) where
  name : String
  isSet : σ → Bool
  update? : Expr → Option (σ → σ)

structure Layout (σ τ : Type) where
  slots : List (Slot σ)
  empty : σ
  complete? : σ → Option τ

namespace Layout

variable {σ τ : Type}

def putField (layout : Layout σ τ) (draft : σ) (key : String) (expr : Expr) : Option σ :=
  match layout.slots.find? fun slot => slot.name == key with
  | none => some draft
  | some slot => if slot.isSet draft then none else (slot.update? expr).map (· draft)

def ofMembers? (layout : Layout σ τ) (members : List (List UInt8 × Expr)) : Option τ :=
  (members.foldlM (putMember layout.putField) layout.empty).bind layout.complete?

def ofItems? (layout : Layout σ τ) : List (Slot σ) → σ → List Expr → Option τ
  | _, draft, [] => layout.complete? draft
  | [], _, _ :: _ => none
  | slot :: slots, draft, expr :: items =>
    (slot.update? expr).bind fun update => layout.ofItems? slots (update draft) items

def of? (layout : Layout σ τ) : Expr → Option τ
  | .array items => layout.ofItems? layout.slots layout.empty items
  | .object members => layout.ofMembers? members
  | _ => none

end Layout

section

variable {σ τ : Type} {fuel : Nat}

structure Field.Fits (fuel : Nat) (field : Field σ) (slot : Slot σ) : Prop where
  name : field.name = slot.name
  isSet : field.isSet = slot.isSet
  reads : ∀ draft, Reads Spells fuel (field.read draft) fun expr =>
    (slot.update? expr).map (· draft)

structure Record.Fits (fuel : Nat) (record : Record σ τ) (layout : Layout σ τ) : Prop where
  fields : List.Forall₂ (Field.Fits fuel) record.fields layout.slots
  empty : record.empty = layout.empty
  complete : ∀ draft, (record.complete draft).toOption = layout.complete? draft

/-- A key names a field just when it names its slot. -/
theorem find_fits {fields : List (Field σ)} {slots : List (Slot σ)}
    (fits : List.Forall₂ (Field.Fits fuel) fields slots) (key : String) :
    (fields.find? (fun field => field.name == key) = none ∧
        slots.find? (fun slot => slot.name == key) = none) ∨
      ∃ field slot, fields.find? (fun field => field.name == key) = some field ∧
        slots.find? (fun slot => slot.name == key) = some slot ∧ Field.Fits fuel field slot := by
  induction fits with
  | nil => exact .inl ⟨rfl, rfl⟩
  | @cons field slot fields slots fit _ ih =>
    by_cases same : slot.name = key
    · refine .inr ⟨field, slot, ?_, ?_, fit⟩
      · exact List.find?_cons_of_pos (by simpa [fit.name] using same)
      · exact List.find?_cons_of_pos (by simpa using same)
    · rw [List.find?_cons_of_neg (by simpa [fit.name] using same),
        List.find?_cons_of_neg (by simpa using same)]
      exact ih

variable {record : Record σ τ} {layout : Layout σ τ}

theorem skipColon_match {α : Type} (read : List UInt8 → Read α) (s : List UInt8) :
    (match skipColon s with
      | .error stop => .error stop
      | .ok s => read s) = Except.bind (skipColon s) read := by
  cases skipColon s <;> rfl

theorem reads_skipped (fuel : Nat) (draft : σ) :
    Reads Spells fuel (fun s => (skipValue fuel s).map fun s => (draft, s))
      fun _ => some draft where
  of_spells := by
    intro expr s t spelled ends bounded
    rw [skipValue_spelled spelled ends bounded]
    rfl
  spells_of_ok := by
    intro s t a read
    obtain ⟨u, skipped, same⟩ := map_eq_ok read
    cases same
    exact spells_of_skipValue skipped

/-- A member that names no field is skipped, one that names a field that is set is refused, and
any other is read. -/
theorem reads_member (fits : record.Fits fuel layout) (draft : σ) (key : String) :
    Reads SpellsBehindKey fuel (record.readMember fuel draft key) (layout.putField draft key) := by
  rcases find_fits fits.fields key with ⟨noField, noSlot⟩ | ⟨field, slot, isField, isSlot, fit⟩
  · refine (reads_skipped fuel draft).behindColon.congr ?_ ?_
    · intro s
      unfold Record.readMember
      rw [noField]
      exact skipColon_match _ s
    · intro expr
      rw [Layout.putField, noSlot]
  · by_cases set : slot.isSet draft = true
    · refine (Reads.refused SpellsBehindKey fuel fun s =>
        .before (.mismatch (.duplicateField field.name)) (Record.behindKey s)).congr ?_ ?_
      · intro s
        unfold Record.readMember
        rw [isField]
        dsimp only
        rw [fit.isSet, if_pos set]
      · intro expr
        rw [Layout.putField, isSlot]
        exact if_pos set
    · refine (fit.reads draft).behindColon.congr ?_ ?_
      · intro s
        unfold Record.readMember
        rw [isField]
        dsimp only
        rw [fit.isSet, if_neg set]
        exact skipColon_match _ s
      · intro expr
        rw [Layout.putField, isSlot]
        exact if_neg set

/-! ## The list form -/

theorem closeList_eq_ok {s t : List UInt8} :
    Record.closeList s = .ok t ↔ Behind s (closeBracket :: t) := by
  unfold Record.closeList
  constructor
  · intro h
    split at h
    · cases h
    · rename_i b rest hs
      split at h
      · rename_i closing
        cases h
        exact closing ▸ behind_of_skipSpace hs
      · split at h
        · split at h <;> cases h
        · cases h
  · intro h
    rw [h.skipSpace_eq rfl]
    exact if_pos rfl

theorem toOption_ended (fits : record.Fits fuel layout) (index : Nat) (draft : σ)
    (rest : List UInt8) :
    (Record.readFields.ended record index draft rest).toOption =
      (layout.complete? draft).map (·, rest) := by
  rw [← fits.complete]
  unfold Record.readFields.ended
  cases record.complete draft <;> rfl

theorem rest_of_ended {index : Nat} {draft : σ} {rest t : List UInt8} {value : τ}
    (h : Record.readFields.ended record index draft rest = .ok (value, t)) : t = rest := by
  unfold Record.readFields.ended at h
  cases done : record.complete draft with
  | error name =>
    rw [done] at h
    cases h
  | ok value =>
    rw [done] at h
    cases h
    rfl

theorem readFields_next {index : Nat} {s u : List UInt8}
    (h : nextItem (index == 0) s = .ok (.next u))
    (field : Field σ) (fields : List (Field σ)) (draft : σ) :
    record.readFields index (field :: fields) draft s =
      Except.bind (field.read draft u) fun pair =>
        record.readFields (index + 1) fields pair.1 pair.2 := by
  conv => lhs; unfold Record.readFields
  rw [h]
  dsimp only
  cases field.read draft u <;> rfl

theorem readFields_spelled (fits : record.Fits fuel layout) {fields : List (Field σ)}
    {slots : List (Slot σ)} (fit : List.Forall₂ (Field.Fits fuel) fields slots) {index : Nat}
    {first : Bool} (start : (index == 0) = first) {items : List Expr} {s t : List UInt8}
    (h : SpellsItems first items s t) (draft : σ) (bounded : s.length ≤ fuel) :
    (record.readFields index fields draft s).toOption =
      (layout.ofItems? slots draft items).map (·, t) := by
  -- on the fields: each takes the next item, and where the items end the others keep their defaults
  induction fit generalizing index first items s draft with
  | nil =>
    cases h with
    | nil h =>
      unfold Record.readFields
      rw [closeList_eq_ok.2 h]
      exact toOption_ended fits index draft t
    | cons h head tail =>
      obtain ⟨b, rest, begins, starts, -⟩ := head.opening
      have next := nextItem_next h begins (opening_of_starts starts)
      unfold Record.readFields
      cases closed : Record.closeList s with
      | error stop => rfl
      | ok u =>
        rw [nextItem_closed (closeList_eq_ok.1 closed)] at next
        cases next
  | @cons field slot fields slots fit _ ih =>
    cases h with
    | nil h =>
      unfold Record.readFields
      rw [nextItem_closed h]
      exact toOption_ended fits index draft t
    | @cons _ _ u v _ expr items h head tail =>
      have shorter := h.length_le
      have consumed := head.length_lt
      obtain ⟨b, rest, begins, starts, head⟩ := head.opening
      have visible := (behind_of_skipSpace begins).length_le
      have step := (fit.reads draft).of_spells head tail.ends (by omega)
      have next := nextItem_next h begins (opening_of_starts starts)
      rw [← start] at next
      rw [readFields_next next, toOption_bind, step, Layout.ofItems?]
      cases slot.update? expr with
      | none => rfl
      | some update =>
        have begun : (index + 1 == 0) = false := rfl
        exact ih begun tail (update draft) (by omega)

theorem items_of_readFields {fields : List (Field σ)}
    {slots : List (Slot σ)} (fit : List.Forall₂ (Field.Fits fuel) fields slots) {index : Nat}
    {first : Bool} (start : (index == 0) = first) {s t : List UInt8} {draft : σ} {value : τ}
    (h : record.readFields index fields draft s = .ok (value, t)) :
    ∃ items, SpellsItems first items s t := by
  subst start
  induction fit generalizing index s draft with
  | nil =>
    unfold Record.readFields at h
    cases closed : Record.closeList s with
    | error stop =>
      rw [closed] at h
      cases h
    | ok u =>
      rw [closed] at h
      cases rest_of_ended h
      exact ⟨[], .nil (closeList_eq_ok.1 closed)⟩
  | cons fit _ ih =>
    cases next : nextItem (index == 0) s with
    | error stop =>
      unfold Record.readFields at h
      rw [next] at h
      cases h
    | ok entry =>
      rcases nextItem_cases next with ⟨u, rfl, closing⟩ | ⟨u, v, rfl, separated, behind⟩
      · unfold Record.readFields at h
        rw [next] at h
        cases rest_of_ended h
        exact ⟨[], .nil closing⟩
      · rw [readFields_next next] at h
        obtain ⟨⟨between, w⟩, read, others⟩ := bind_eq_ok h
        obtain ⟨expr, spelled⟩ := (fit.reads draft).spells_of_ok read
        obtain ⟨items, tail⟩ := ih others
        exact ⟨expr :: items, .cons separated (spelled.behind behind) tail⟩

/-! ## Both forms -/

theorem toOption_readObject (fits : record.Fits fuel layout)
    {members : List (List UInt8 × Expr)} {s t : List UInt8} (h : SpellsMembers true members s t)
    (bounded : s.length ≤ fuel) :
    (record.readObject fuel s).toOption = (layout.ofMembers? members).map (·, t) := by
  have count := h.length_lt
  have enough : members.length < fuel := by omega
  have read := foldMembers_spelled (reads_member fits) h record.empty bounded enough
  have whole : record.readObject fuel s =
      Except.bind (foldMembers (record.readMember fuel) fuel true record.empty s) fun pair =>
        ((record.complete pair.1).mapError fun name =>
          .before (.mismatch (.missingField name)) pair.2).map (·, pair.2) := by
    unfold Record.readObject
    cases foldMembers (record.readMember fuel) fuel true record.empty s with
    | error stop => rfl
    | ok pair =>
      obtain ⟨draft, u⟩ := pair
      dsimp only [Except.bind]
      cases record.complete draft <;> rfl
  rw [whole, toOption_bind, read, Layout.ofMembers?, fits.empty]
  cases members.foldlM (putMember layout.putField) layout.empty with
  | none => rfl
  | some draft =>
    change (((record.complete draft).mapError _).map _).toOption =
      (layout.complete? draft).map _
    rw [← fits.complete]
    cases record.complete draft <;> rfl

theorem members_of_readObject (fits : record.Fits fuel layout) {s t : List UInt8} {value : τ}
    (h : record.readObject fuel s = .ok (value, t)) :
    ∃ members, SpellsMembers true members s t := by
  unfold Record.readObject at h
  cases read : foldMembers (record.readMember fuel) fuel true record.empty s with
  | error stop =>
    rw [read] at h
    cases h
  | ok pair =>
    obtain ⟨draft, u⟩ := pair
    rw [read] at h
    dsimp only at h
    cases done : record.complete draft with
    | error name =>
      rw [done] at h
      cases h
    | ok value =>
      rw [done] at h
      cases h
      exact members_of_foldMembers (reads_member fits) read

/-- A record is read in either form as its layout tells. -/
theorem reads_record (fits : record.Fits fuel layout) :
    Reads Spells fuel (record.read fuel) layout.of? where
  of_spells := by
    intro expr s t spelled ends bounded
    obtain ⟨b, rest, begins, starts, spelled⟩ := spelled.opening
    have visible := (behind_of_skipSpace begins).length_le
    rw [List.length_cons] at visible
    unfold Record.read
    rw [begins]
    dsimp only
    by_cases isList : b = openBracket
    · rw [if_pos isList]
      subst isList
      cases expr with
      | array items =>
        cases spelled with
        | array h inside =>
          cases h.skipSpace_eq rfl
          rw [fits.empty]
          have start : (0 == 0) = true := rfl
          exact readFields_spelled fits fits.fields start inside layout.empty (by omega)
      | boolean value => cases value <;> cases starts
      | null | number | string | object => cases starts
    · rw [if_neg isList]
      by_cases isObject : b = openBrace
      · rw [if_pos isObject]
        subst isObject
        cases expr with
        | object members =>
          cases spelled with
          | object h inside =>
            cases h.skipSpace_eq rfl
            exact toOption_readObject fits inside (by omega)
        | boolean value => cases value <;> cases starts
        | null | number | string | array => cases starts
      · rw [if_neg isObject]
        cases expr with
        | array items => exact absurd starts isList
        | object members => exact absurd starts isObject
        | null | boolean | number | string => rfl
  spells_of_ok := by
    intro s t value read
    unfold Record.read at read
    split at read
    · cases read
    · rename_i b rest begins
      have behind := behind_of_skipSpace begins
      split at read
      · rename_i isList
        obtain ⟨items, inside⟩ := items_of_readFields fits.fields rfl read
        exact ⟨.array items, .array (isList ▸ behind) inside⟩
      · split at read
        · rename_i isObject
          obtain ⟨members, inside⟩ := members_of_readObject fits read
          exact ⟨.object members, .object (isObject ▸ behind) inside⟩
        · cases read

end

end DiveTable.Json
