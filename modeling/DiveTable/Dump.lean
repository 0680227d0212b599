import DiveTable.Dump.Document
import DiveTable.Sample
import DiveTable.Trace
import DiveTable.Version

/-! A dump that can be converted: its document is whole, its format version is known, and its
device is a supported one. They are judged in this order. -/
namespace DiveTable

structure Device where
  vendor : String
  product : String
  deriving DecidableEq, Repr

namespace Device

/-- Equal but for the case of the letters A to Z. -/
def sameLetters (a b : String) : Bool := a.toList.map Char.toLower == b.toList.map Char.toLower

def answersTo (device : Device) (vendor product : String) : Bool :=
  sameLetters device.vendor vendor && sameLetters device.product product

def supported : List Device := [⟨"Divesoft", "Freedom"⟩, ⟨"Divesoft", "Liberty"⟩]

def find? (vendor product : String) : Option Device :=
  supported.find? fun device => device.answersTo vendor product

def text (device : Device) : String := device.vendor ++ " " ++ device.product

end Device

structure Dump where
  device : Device
  version : Version
  dateTime? : Option DateTime
  maxDepth? : Option Binary64
  diveTime? : Option UInt32
  samples : List Json.Value

inductive SourceFormat where
  | sampleDump
  deriving DecidableEq, Repr

def SourceFormat.name : SourceFormat → String
  | sampleDump => "SampleDump"

/-- White space in front of a layout; it includes the form feed, which JSON does not. -/
def isLeadingSpace (b : UInt8) : Bool := Json.isSpace b || b == Ascii.formFeed

def hexByte (b : UInt8) : String :=
  String.ofList ([b.toNat / 16, b.toNat % 16].map fun d => (Nat.digitChar d).toUpper)

def identify (input : List UInt8) : Except Fault SourceFormat :=
  if input = [] then .error .emptyInput
  else match input.dropWhile isLeadingSpace with
    | [] => .error (.unknownFormat "input contains only whitespace")
    | b :: _ =>
      if b = Ascii.openBrace then .ok .sampleDump
      else .error (.unknownFormat ("unrecognised leading byte 0x" ++ hexByte b))

namespace Dump

def supportedMajor : Nat := 1

def ofDocument (document : Document) : Except Fault Dump :=
  match Version.ofText? (trimBlank document.formatVersion.toList) with
  | none => .error (.unsupportedVersion document.formatVersion)
  | some version =>
    if version.major ≠ supportedMajor then
      .error (.unsupportedVersion (String.ofList version.text))
    else match Device.find? document.vendor document.product with
      | none => .error (.unsupportedDevice document.vendor document.product)
      | some device =>
        .ok {
          device, version
          dateTime? := document.dateTime
          maxDepth? := document.maxDepth
          diveTime? := document.diveTime
          samples := document.samples }

def parse (input : List UInt8) : Except Fault Dump :=
  match Document.parse input with
  | .error fault => .error (.json fault)
  | .ok document => ofDocument document

theorem parse_of_document {input : List UInt8} {document : Document}
    (h : Document.parse input = .ok document) : parse input = ofDocument document := by
  rw [parse, h]

theorem document_of_parse {input : List UInt8} {dump : Dump} (h : parse input = .ok dump) :
    ∃ document, Document.parse input = .ok document ∧ ofDocument document = .ok dump := by
  unfold parse at h
  cases read : Document.parse input with
  | error fault =>
    rw [read] at h
    cases h
  | ok document =>
    rw [read] at h
    exact ⟨document, rfl, h⟩

theorem ofDocument_eq_ok {document : Document} {dump : Dump} (h : ofDocument document = .ok dump) :
    dump.dateTime? = document.dateTime ∧ dump.maxDepth? = document.maxDepth ∧
      dump.diveTime? = document.diveTime ∧ dump.samples = document.samples := by
  unfold ofDocument at h
  split at h
  · cases h
  · split at h
    · cases h
    · split at h
      · cases h
      · cases h
        exact ⟨rfl, rfl, rfl, rfl⟩

/-- A document is judged by its version and its device alone. -/
theorem ofDocument_of_same {document document' : Document}
    (version : document.formatVersion = document'.formatVersion)
    (vendor : document.vendor = document'.vendor)
    (product : document.product = document'.product) :
    (∃ fault, ofDocument document = .error fault ∧ ofDocument document' = .error fault) ∨
    ∃ dump dump', ofDocument document = .ok dump ∧ ofDocument document' = .ok dump' ∧
      dump.device = dump'.device ∧ dump.version = dump'.version := by
  rw [ofDocument, ofDocument, version, vendor, product]
  cases Version.ofText? (trimBlank document'.formatVersion.toList) with
  | none => exact .inl ⟨_, rfl, rfl⟩
  | some version =>
    dsimp only
    by_cases known : version.major ≠ supportedMajor
    · rw [if_pos known, if_pos known]
      exact .inl ⟨_, rfl, rfl⟩
    · rw [if_neg known, if_neg known]
      cases Device.find? document'.vendor document'.product with
      | none => exact .inl ⟨_, rfl, rfl⟩
      | some device => exact .inr ⟨_, _, rfl, rfl, rfl, rfl⟩

def read (debug : Bool) (input : List UInt8) : Trace Fault Dump := do
  let format ← Trace.ofExcept (identify input)
  Trace.say debug ["Identified input format: " ++ format.name]
  let dump ← Trace.ofExcept (parse input)
  Trace.say debug ["Created decoder for " ++ dump.device.text ++ " (" ++
    dump.samples.length.repr ++ " samples)"]
  return dump

def require {α : Type} (metadata : Metadata) (value : Option α) : Except Fault α :=
  match value with
  | some a => .ok a
  | none => .error (.unavailable metadata)

def dateTime (dump : Dump) : Except Fault DateTime := require .dateTime dump.dateTime?

def maxDepth (dump : Dump) : Except Fault Binary64 := require .maxDepth dump.maxDepth?

def diveTime (dump : Dump) : Except Fault UInt32 := require .diveTime dump.diveTime?

def items (dump : Dump) : List (Except Fault Event) := Cursor.items dump.samples

end Dump

end DiveTable
