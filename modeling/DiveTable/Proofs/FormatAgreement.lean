import DiveTable.Proofs.DocumentRewriting

/-! # Formats and documents

The layout of an input is told by its first visible byte, and more white space may stand in front of
that byte than in front of a document. Main statement: identification adds no fault of its own to
a document that it lets pass, and lets every document pass that is accepted as an object. -/
namespace DiveTable

open Json

def leadingSpaces : List UInt8 :=
  [Ascii.tab, Ascii.lineFeed, Ascii.formFeed, Ascii.carriageReturn, Ascii.space]

def Blank (input : List UInt8) : Prop := ∀ b ∈ input, b ∈ leadingSpaces

def FirstVisible (input : List UInt8) (b : UInt8) : Prop :=
  ∃ front rest, input = front ++ b :: rest ∧ Blank front ∧ b ∉ leadingSpaces

def upperDigits : List Char :=
  ['0', '1', '2', '3', '4', '5', '6', '7', '8', '9', 'A', 'B', 'C', 'D', 'E', 'F']

/-- Two hexadecimal digits in capitals, the high one first. -/
inductive NamesByte (b : UInt8) : List Char → Prop
  | digits {high low : Nat} {c d : Char} (value : b.toNat = 16 * high + low)
    (first : upperDigits[high]? = some c) (second : upperDigits[low]? = some d) :
    NamesByte b [c, d]

theorem isLeadingSpace_iff {b : UInt8} : isLeadingSpace b = true ↔ b ∈ leadingSpaces := by
  simp only [isLeadingSpace, isSpace, leadingSpaces, Bool.or_eq_true, beq_iff_eq, List.mem_cons,
    List.not_mem_nil, or_false]
  tauto

theorem upperDigits_getElem : ∀ d < 16, upperDigits[d]? = some (Nat.digitChar d).toUpper := by
  decide

theorem namesByte_hexByte (b : UInt8) : NamesByte b (hexByte b).toList := by
  have bound := b.toNat_lt
  have high : b.toNat / 16 < 16 := by omega
  have low : b.toNat % 16 < 16 := Nat.mod_lt _ (by decide)
  rw [hexByte, String.toList_ofList]
  exact .digits (Nat.div_add_mod b.toNat 16).symm (upperDigits_getElem _ high)
    (upperDigits_getElem _ low)

/-! ## What identification tells -/

theorem dropWhile_blank {front : List UInt8} (h : Blank front) (rest : List UInt8) :
    (front ++ rest).dropWhile isLeadingSpace = rest.dropWhile isLeadingSpace :=
  List.dropWhile_append_of_pos fun b mem => isLeadingSpace_iff.2 (h b mem)

theorem FirstVisible.dropWhile {input : List UInt8} {b : UInt8} (h : FirstVisible input b) :
    ∃ rest, input.dropWhile isLeadingSpace = b :: rest := by
  obtain ⟨front, rest, rfl, blank, visible⟩ := h
  refine ⟨rest, ?_⟩
  rw [dropWhile_blank blank]
  exact List.dropWhile_cons_of_neg fun space => visible (isLeadingSpace_iff.1 space)

theorem blank_or_visible (input : List UInt8) : Blank input ∨ ∃ b, FirstVisible input b := by
  induction input with
  | nil => exact .inl nofun
  | cons b rest ih =>
    by_cases space : b ∈ leadingSpaces
    · rcases ih with blank | ⟨c, front, more, rfl, blank, visible⟩
      · exact .inl (List.forall_mem_cons.2 ⟨space, blank⟩)
      · exact .inr ⟨c, b :: front, more, rfl, List.forall_mem_cons.2 ⟨space, blank⟩, visible⟩
    · exact .inr ⟨b, [], rest, rfl, nofun, space⟩

theorem FirstVisible.ne_nil {input : List UInt8} {b : UInt8} (h : FirstVisible input b) :
    input ≠ [] := by
  obtain ⟨front, rest, rfl, -, -⟩ := h
  exact List.append_ne_nil_of_right_ne_nil front (List.cons_ne_nil b rest)

theorem identify_of_blank {input : List UInt8} (some' : input ≠ []) (h : Blank input) :
    identify input = .error (.unknownFormat "input contains only whitespace") := by
  have nothing : input.dropWhile isLeadingSpace = [] := by
    simpa using dropWhile_blank h []
  rw [identify, if_neg some', nothing]

theorem identify_of_visible {input : List UInt8} {b : UInt8} (h : FirstVisible input b) :
    identify input = if b = Ascii.openBrace then .ok .sampleDump
      else .error (.unknownFormat ("unrecognised leading byte 0x" ++ hexByte b)) := by
  obtain ⟨rest, first⟩ := h.dropWhile
  rw [identify, if_neg h.ne_nil, first]

/-! ## What an accepted document begins with -/

theorem firstVisible_of_behind {s t : List UInt8} {b : UInt8} (h : Behind s (b :: t))
    (visible : b ∉ leadingSpaces) : FirstVisible s b := by
  obtain ⟨blank, spaces, rfl⟩ := h
  refine ⟨blank, t, rfl, fun c mem => isLeadingSpace_iff.1 ?_, visible⟩
  rw [isLeadingSpace, spaces c mem]
  rfl

theorem firstVisible_of_object {members : List (List UInt8 × Expr)} {input : List UInt8}
    (h : Spelled (.object members) input) : FirstVisible input Ascii.openBrace := by
  obtain ⟨t, spelled, -⟩ := h
  cases spelled with
  | object h _ => exact firstVisible_of_behind h (by decide)

theorem firstVisible_of_array {items : List Expr} {input : List UInt8}
    (h : Spelled (.array items) input) : FirstVisible input Ascii.openBracket := by
  obtain ⟨t, spelled, -⟩ := h
  cases spelled with
  | array h _ => exact firstVisible_of_behind h (by decide)

namespace Dump

/-- How reading ends is told by the format and, if that is known, by the document. -/
theorem outcome_read (debug : Bool) (input : List UInt8) :
    (read debug input).outcome = Except.bind (identify input) fun _ => parse input := by
  unfold read
  cases identify input with
  | error fault => rfl
  | ok format =>
    simp only [Trace.outcome_bind, Trace.outcome_ofExcept, Trace.outcome_say, Trace.outcome_pure]
    show Except.bind (parse input) Except.ok = parse input
    cases parse input <;> rfl

/-- A document that is refused is refused for its text, its version or its device. -/
theorem parse_fault_cases {input : List UInt8} {fault : Fault} (h : parse input = .error fault) :
    (∃ place, fault = .json place) ∨ (∃ text, fault = .unsupportedVersion text) ∨
      ∃ vendor product, fault = .unsupportedDevice vendor product := by
  unfold parse at h
  split at h
  · cases h
    exact .inl ⟨_, rfl⟩
  · unfold ofDocument at h
    split at h
    · cases h
      exact .inr (.inl ⟨_, rfl⟩)
    · split at h
      · cases h
        exact .inr (.inl ⟨_, rfl⟩)
      · split at h
        · cases h
          exact .inr (.inr ⟨_, _, rfl⟩)
        · cases h

theorem parse_ne_emptyInput (input : List UInt8) : parse input ≠ .error .emptyInput := by
  intro h
  rcases parse_fault_cases h with ⟨_, same⟩ | ⟨_, same⟩ | ⟨_, _, same⟩ <;> cases same

theorem parse_ne_unknownFormat (input : List UInt8) (detail : String) :
    parse input ≠ .error (.unknownFormat detail) := by
  intro h
  rcases parse_fault_cases h with ⟨_, same⟩ | ⟨_, same⟩ | ⟨_, _, same⟩ <;> cases same

theorem read_of_brace {input : List UInt8} (h : FirstVisible input Ascii.openBrace)
    (debug : Bool) : (read debug input).outcome = parse input := by
  rw [outcome_read, identify_of_visible h]
  rfl

theorem read_of_other {input : List UInt8} {b : UInt8} (h : FirstVisible input b)
    (other : b ≠ Ascii.openBrace) (debug : Bool) : (read debug input).outcome =
      .error (.unknownFormat ("unrecognised leading byte 0x" ++ hexByte b)) := by
  rw [outcome_read, identify_of_visible h, if_neg other]
  rfl

theorem read_of_blank {input : List UInt8} (some' : input ≠ []) (h : Blank input)
    (debug : Bool) : (read debug input).outcome =
      .error (.unknownFormat "input contains only whitespace") := by
  rw [outcome_read, identify_of_blank some' h]
  rfl

theorem read_emptyInput_iff (debug : Bool) (input : List UInt8) :
    (read debug input).outcome = .error .emptyInput ↔ input = [] := by
  constructor
  · intro h
    apply Classical.byContradiction
    intro some'
    rcases blank_or_visible input with blank | ⟨b, visible⟩
    · rw [read_of_blank some' blank] at h
      cases h
    · by_cases brace : b = Ascii.openBrace
      · rw [read_of_brace (brace ▸ visible)] at h
        exact parse_ne_emptyInput input h
      · rw [read_of_other visible brace] at h
        cases h
  · rintro rfl
    rfl

theorem read_unknownFormat_iff (debug : Bool) (input : List UInt8) :
    (∃ detail, (read debug input).outcome = .error (.unknownFormat detail)) ↔
      input ≠ [] ∧ ¬FirstVisible input Ascii.openBrace := by
  constructor
  · rintro ⟨detail, h⟩
    constructor
    · rintro rfl
      cases h
    · intro brace
      rw [read_of_brace brace] at h
      exact parse_ne_unknownFormat input detail h
  · rintro ⟨some', other⟩
    rcases blank_or_visible input with blank | ⟨b, visible⟩
    · exact ⟨_, read_of_blank some' blank debug⟩
    · refine ⟨_, read_of_other visible ?_ debug⟩
      rintro rfl
      exact other visible

/-- Reading an input finds that it is empty or begins with no known layout, which the fault tells
by the byte, or ends as the document does. An accepted document is turned away only if it is written
as a list. -/
theorem read_agrees_with_parse (debug : Bool) (input : List UInt8) :
    ((read debug input).outcome = .error .emptyInput ↔ input = []) ∧
    ((∃ detail, (read debug input).outcome = .error (.unknownFormat detail)) ↔
      input ≠ [] ∧ ¬FirstVisible input Ascii.openBrace) ∧
    (input ≠ [] → Blank input →
      (read debug input).outcome = .error (.unknownFormat "input contains only whitespace")) ∧
    (∀ b, FirstVisible input b → b ≠ Ascii.openBrace → ∃ digits, NamesByte b digits ∧
      (read debug input).outcome =
        .error (.unknownFormat ("unrecognised leading byte 0x" ++ String.ofList digits))) ∧
    (FirstVisible input Ascii.openBrace → (read debug input).outcome = parse input) ∧
    ∀ dump, parse input = .ok dump →
      (read debug input).outcome = .ok dump ∨ FirstVisible input Ascii.openBracket := by
  refine ⟨read_emptyInput_iff debug input, read_unknownFormat_iff debug input, ?_, ?_, ?_, ?_⟩
  · intro some' blank
    exact read_of_blank some' blank debug
  · intro b visible other
    refine ⟨(hexByte b).toList, namesByte_hexByte b, ?_⟩
    rw [String.ofList_toList]
    exact read_of_other visible other debug
  · intro brace
    exact read_of_brace brace debug
  · intro dump accepted
    rcases spelled_of_parse accepted with ⟨members, spelled⟩ | ⟨items, spelled⟩
    · left
      rw [read_of_brace (firstVisible_of_object spelled), accepted]
    · exact .inr (firstVisible_of_array spelled)

end Dump

end DiveTable
