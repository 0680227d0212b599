import DiveTable.Json.Record

/-! The document of a sample dump, as it stands in the text. Samples are kept as values; what
they mean is decided when they are delivered. -/
namespace DiveTable

open Json

/-- The start of a dive as the device's clock gave it; nothing checks that it is a calendar date. -/
structure DateTime where
  year : UInt16
  month : UInt8
  day : UInt8
  hour : UInt8
  minute : UInt8
  second : UInt8
  deriving DecidableEq, Repr

def DateTime.text (t : DateTime) : String :=
  zeroPadded 4 t.year.toNat ++ "-" ++ zeroPadded 2 t.month.toNat ++ "-" ++
    zeroPadded 2 t.day.toNat ++ " " ++ zeroPadded 2 t.hour.toNat ++ ":" ++
    zeroPadded 2 t.minute.toNat ++ ":" ++ zeroPadded 2 t.second.toNat

structure Document where
  formatVersion : String
  vendor : String
  product : String
  dateTime : Option DateTime
  maxDepth : Option Binary64
  diveTime : Option UInt32
  samples : List Value

namespace Document

structure DateTimeDraft where
  year : Option UInt16
  month : Option UInt8
  day : Option UInt8
  hour : Option UInt8
  minute : Option UInt8
  second : Option UInt8
  deriving DecidableEq, Repr

def fill {α σ : Type} (set : α → σ) : Read α → Read σ
  | .ok (a, rest) => .ok (set a, rest)
  | .error stop => .error stop

def completeDateTime (draft : DateTimeDraft) : Except String DateTime :=
  match draft.year, draft.month, draft.day with
  | none, _, _ => .error "year"
  | some _, none, _ => .error "month"
  | some _, some _, none => .error "day"
  | some year, some month, some day =>
    .ok {
      year, month, day
      hour := draft.hour.getD 0
      minute := draft.minute.getD 0
      second := draft.second.getD 0 }

def dateTimeRecord : Record DateTimeDraft DateTime where
  name := "struct RawDateTime"
  fields := [
    ⟨"year", fun d => d.year.isSome,
      fun d s => fill (fun x => { d with year := some x }) (readUInt16 s)⟩,
    ⟨"month", fun d => d.month.isSome,
      fun d s => fill (fun x => { d with month := some x }) (readUInt8 s)⟩,
    ⟨"day", fun d => d.day.isSome,
      fun d s => fill (fun x => { d with day := some x }) (readUInt8 s)⟩,
    ⟨"hour", fun d => d.hour.isSome,
      fun d s => fill (fun x => { d with hour := some x }) (readUInt8 s)⟩,
    ⟨"minute", fun d => d.minute.isSome,
      fun d s => fill (fun x => { d with minute := some x }) (readUInt8 s)⟩,
    ⟨"second", fun d => d.second.isSome,
      fun d s => fill (fun x => { d with second := some x }) (readUInt8 s)⟩]
  empty := ⟨none, none, none, none, none, none⟩
  complete := completeDateTime

/-- The fields of a document that have been read; null is nothing, but has been read. -/
structure Draft where
  formatVersion : Option String
  vendor : Option String
  product : Option String
  dateTime : Option (Option DateTime)
  maxDepth : Option (Option Binary64)
  diveTime : Option (Option UInt32)
  samples : Option (List Value)

def complete (draft : Draft) : Except String Document :=
  match draft.formatVersion, draft.vendor, draft.product with
  | none, _, _ => .error "format_version"
  | some _, none, _ => .error "vendor"
  | some _, some _, none => .error "product"
  | some formatVersion, some vendor, some product =>
    .ok {
      formatVersion, vendor, product
      dateTime := draft.dateTime.getD none
      maxDepth := draft.maxDepth.getD none
      diveTime := draft.diveTime.getD none
      samples := draft.samples.getD [] }

theorem complete_eq_ok {draft : Draft} {document : Document} (h : complete draft = .ok document) :
    document.dateTime = draft.dateTime.getD none ∧ document.maxDepth = draft.maxDepth.getD none ∧
      document.diveTime = draft.diveTime.getD none ∧ document.samples = draft.samples.getD [] := by
  unfold complete at h
  split at h
  · cases h
  · cases h
  · cases h
  · cases h
    exact ⟨rfl, rfl, rfl, rfl⟩

def record (fuel : Nat) : Record Draft Document where
  name := "struct DumpDocument"
  fields := [
    ⟨"format_version", fun d => d.formatVersion.isSome,
      fun d s => fill (fun x => { d with formatVersion := some x }) (readText s)⟩,
    ⟨"vendor", fun d => d.vendor.isSome,
      fun d s => fill (fun x => { d with vendor := some x }) (readText s)⟩,
    ⟨"product", fun d => d.product.isSome,
      fun d s => fill (fun x => { d with product := some x }) (readText s)⟩,
    ⟨"datetime", fun d => d.dateTime.isSome,
      fun d s => fill (fun x => { d with dateTime := some x })
        (readOptional (dateTimeRecord.read fuel) s)⟩,
    ⟨"max_depth", fun d => d.maxDepth.isSome,
      fun d s => fill (fun x => { d with maxDepth := some x }) (readOptional readBinary64 s)⟩,
    ⟨"dive_time", fun d => d.diveTime.isSome,
      fun d s => fill (fun x => { d with diveTime := some x }) (readOptional readUInt32 s)⟩,
    ⟨"samples", fun d => d.samples.isSome,
      fun d s => fill (fun x => { d with samples := some x })
        (readValues fuel (nestingLimit - 2) s)⟩]
  empty := ⟨none, none, none, none, none, none, none⟩
  complete := complete

def parse (input : List UInt8) : Except Json.Fault Document :=
  let read : Except Stop Document :=
    match (record input.length).read input.length input with
    | .error stop => .error stop
    | .ok (document, rest) => (endOfText rest).map fun _ => document
  read.mapError (·.locate input)

/-- What is parsed is a record with nothing behind it. -/
theorem record_of_parse {input : List UInt8} {document : Document}
    (h : parse input = .ok document) : ∃ rest,
      (record input.length).read input.length input = .ok (document, rest) ∧
        endOfText rest = .ok () := by
  unfold parse at h
  cases read : (record input.length).read input.length input with
  | error stop =>
    rw [read] at h
    cases h
  | ok pair =>
    rw [read] at h
    dsimp only at h
    cases ended : endOfText pair.2 with
    | error stop =>
      rw [ended] at h
      cases h
    | ok done =>
      rw [ended] at h
      cases h
      exact ⟨pair.2, rfl, ended⟩

end Document

end DiveTable
