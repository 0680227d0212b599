import DiveTable.Dump
import DiveTable.Proofs.RecordLayout

/-! # The layout of a document

What a dump makes of a document depends on the document as it is written alone, apart from white
space: each of its fields is read as the layout tells, and only what is spelled is accepted. -/
namespace DiveTable

open Json

namespace Document

def slot {α σ : Type} (name : String) (isSet : σ → Bool) (of? : Expr → Option α)
    (set : α → σ → σ) : Slot σ where
  name := name
  isSet := isSet
  update? expr := (of? expr).map set

theorem fits_slot {α σ : Type} {fuel : Nat} (name : String) (isSet : σ → Bool)
    {read : List UInt8 → Read α} {of? : Expr → Option α} (h : Reads Spells fuel read of?)
    (set : α → σ → σ) :
    Field.Fits fuel ⟨name, isSet, fun d s => fill (fun x => set x d) (read s)⟩
      (slot name isSet of? set) where
  name := rfl
  isSet := rfl
  reads := by
    intro draft
    refine (h.map fun x => set x draft).congr ?_ ?_
    · intro s
      dsimp only
      cases read s <;> rfl
    · intro expr
      exact Option.map_map _ _ _

def dateTimeLayout : Layout DateTimeDraft DateTime where
  slots := [
    slot "year" (fun d => d.year.isSome) Expr.uint16? fun x d => { d with year := some x },
    slot "month" (fun d => d.month.isSome) Expr.uint8? fun x d => { d with month := some x },
    slot "day" (fun d => d.day.isSome) Expr.uint8? fun x d => { d with day := some x },
    slot "hour" (fun d => d.hour.isSome) Expr.uint8? fun x d => { d with hour := some x },
    slot "minute" (fun d => d.minute.isSome) Expr.uint8? fun x d => { d with minute := some x },
    slot "second" (fun d => d.second.isSome) Expr.uint8? fun x d => { d with second := some x }]
  empty := ⟨none, none, none, none, none, none⟩
  complete? draft := (completeDateTime draft).toOption

def layout : Layout Draft Document where
  slots := [
    slot "format_version" (fun d => d.formatVersion.isSome) Expr.text?
      fun x d => { d with formatVersion := some x },
    slot "vendor" (fun d => d.vendor.isSome) Expr.text? fun x d => { d with vendor := some x },
    slot "product" (fun d => d.product.isSome) Expr.text? fun x d => { d with product := some x },
    slot "datetime" (fun d => d.dateTime.isSome) (Expr.optional? dateTimeLayout.of?)
      fun x d => { d with dateTime := some x },
    slot "max_depth" (fun d => d.maxDepth.isSome) (Expr.optional? Expr.binary64?)
      fun x d => { d with maxDepth := some x },
    slot "dive_time" (fun d => d.diveTime.isSome) (Expr.optional? Expr.uint32?)
      fun x d => { d with diveTime := some x },
    slot "samples" (fun d => d.samples.isSome) (Expr.values? (nestingLimit - 2))
      fun x d => { d with samples := some x }]
  empty := ⟨none, none, none, none, none, none, none⟩
  complete? draft := (complete draft).toOption

theorem fits_dateTime (fuel : Nat) : dateTimeRecord.Fits fuel dateTimeLayout where
  fields := .cons (fits_slot _ _ (reads_uint16 fuel) _) <|
    .cons (fits_slot _ _ (reads_uint8 fuel) _) <| .cons (fits_slot _ _ (reads_uint8 fuel) _) <|
    .cons (fits_slot _ _ (reads_uint8 fuel) _) <| .cons (fits_slot _ _ (reads_uint8 fuel) _) <|
    .cons (fits_slot _ _ (reads_uint8 fuel) _) .nil
  empty := rfl
  complete _ := rfl

theorem fits_document (fuel : Nat) : (record fuel).Fits fuel layout where
  fields := .cons (fits_slot _ _ (reads_text fuel) _) <|
    .cons (fits_slot _ _ (reads_text fuel) _) <| .cons (fits_slot _ _ (reads_text fuel) _) <|
    .cons (fits_slot _ _ (reads_optional (reads_record (fits_dateTime fuel))) _) <|
    .cons (fits_slot _ _ (reads_optional (reads_binary64 fuel)) _) <|
    .cons (fits_slot _ _ (reads_optional (reads_uint32 fuel)) _) <|
    .cons (fits_slot _ _ (reads_values fuel _) _) .nil
  empty := rfl
  complete _ := rfl

theorem endOfText_eq_ok {s : List UInt8} : endOfText s = .ok () ↔ Behind s [] := by
  unfold endOfText
  constructor
  · intro h
    split at h
    · rename_i hs
      exact behind_of_skipSpace hs
    · cases h
  · intro h
    rw [h.skipSpace]
    rfl

/-- A document is parsed as its layout tells. -/
theorem parse_spelled {expr : Expr} {input : List UInt8} (h : Spelled expr input) :
    (parse input).toOption = layout.of? expr := by
  obtain ⟨t, spelled, behind⟩ := h
  have read := (reads_record (fits_document input.length)).of_spells spelled
    (behind.ends ends_nil) (Nat.le_refl _)
  unfold parse
  dsimp only
  cases result : (record input.length).read input.length input with
  | error stop =>
    rw [result] at read
    cases value : layout.of? expr with
    | none => rfl
    | some document =>
      rw [value] at read
      cases read
  | ok pair =>
    obtain ⟨value, rest⟩ := rest_of_toOption read result
    obtain ⟨document, u⟩ := pair
    rw [value]
    cases rest
    dsimp only
    rw [endOfText_eq_ok.2 behind]
    rfl

/-- Only a document that is spelled is parsed. -/
theorem spelled_of_parse {input : List UInt8} {document : Document}
    (h : parse input = .ok document) : ∃ expr, Spelled expr input := by
  obtain ⟨rest, read, ended⟩ := record_of_parse h
  obtain ⟨expr, spelled⟩ := (reads_record (fits_document input.length)).spells_of_ok read
  exact ⟨expr, rest, spelled, endOfText_eq_ok.1 ended⟩

end Document

namespace Dump

open Document

theorem json_of_unread {input : List UInt8}
    (h : ∀ document, Document.parse input ≠ .ok document) :
    ∃ fault, parse input = .error (.json fault) := by
  unfold parse
  cases read : Document.parse input with
  | error fault => exact ⟨fault, rfl⟩
  | ok document => exact absurd read (h document)

theorem parse_of_layout {expr : Expr} {input : List UInt8} {document : Document}
    (spelled : Spelled expr input) (h : layout.of? expr = some document) :
    parse input = ofDocument document :=
  parse_of_document (eq_ok_of_toOption ((parse_spelled spelled).trans h))

theorem json_of_layout {expr : Expr} {input : List UInt8} (spelled : Spelled expr input)
    (h : layout.of? expr = none) : ∃ fault, parse input = .error (.json fault) := by
  apply json_of_unread
  intro document read
  have meaning := parse_spelled spelled
  rw [read, h] at meaning
  cases meaning

theorem layout_of_parse {expr : Expr} {input : List UInt8} {dump : Dump}
    (spelled : Spelled expr input) (accepted : parse input = .ok dump) :
    ∃ document, layout.of? expr = some document ∧ ofDocument document = .ok dump := by
  obtain ⟨document, read, judged⟩ := document_of_parse accepted
  have meaning := parse_spelled spelled
  rw [read] at meaning
  exact ⟨document, meaning.symm, judged⟩

end Dump

end DiveTable
