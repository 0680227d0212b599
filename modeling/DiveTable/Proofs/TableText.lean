import DiveTable.Row
import DiveTable.Table.Conversion
import DiveTable.Table.Writer
import DiveTable.Text.Split

/-! # The text of a table

No field of a row holds a character that would have to be quoted, whatever its numbers are, so a
record is its fields with commas between them and splits back into them; no line holds a line
feed, so a table splits back into its lines. -/
namespace DiveTable

namespace Csv

theorem isPlain_iff {field : String} :
    isPlain field = true ↔ ∀ c ∈ field.toList, isSpecial c = false := by
  simp [isPlain]

theorem isPlain_append {s t : String} (hs : isPlain s = true) (ht : isPlain t = true) :
    isPlain (s ++ t) = true := by
  rw [isPlain_iff] at hs ht ⊢
  intro c hc
  rw [String.toList_append] at hc
  exact (List.mem_append.1 hc).elim (hs c) (ht c)

theorem isSpecial_of_isDigit {c : Char} (h : c.isDigit = true) : isSpecial c = false := by
  cases hc : isSpecial c with
  | false => rfl
  | true =>
    simp only [isSpecial, Bool.or_eq_true, beq_iff_eq] at hc
    rcases hc with ((rfl | rfl) | rfl) | rfl <;> simp at h

theorem isPlain_of_digits {digits : List Char} (h : ∀ c ∈ digits, c.isDigit = true) :
    isPlain (String.ofList digits) = true := by
  rw [isPlain_iff, String.toList_ofList]
  intro c hc
  exact isSpecial_of_isDigit (h c hc)

theorem isDigit_of_mem_toDigits {n : Nat} {c : Char} (h : c ∈ Nat.toDigits 10 n) :
    c.isDigit = true :=
  Nat.isDigit_of_mem_toDigits (by decide) (by decide) h

theorem isPlain_repr (n : Nat) : isPlain n.repr = true :=
  isPlain_of_digits fun _ hc => isDigit_of_mem_toDigits hc

theorem isPlain_zeroPadded (width n : Nat) : isPlain (zeroPadded width n) = true := by
  apply isPlain_of_digits
  intro c hc
  rcases List.mem_append.1 hc with hc | hc
  · rw [List.eq_of_mem_replicate hc]
    rfl
  · exact isDigit_of_mem_toDigits hc

theorem isPlain_pointed (places n : Nat) : isPlain (pointed places n) = true := by
  unfold pointed
  split
  · exact isPlain_repr n
  · exact isPlain_append (isPlain_append (isPlain_repr _) rfl) (isPlain_zeroPadded places _)

theorem isPlain_fixedText (x : Binary64) (places : Nat) : isPlain (x.fixedText places) = true := by
  unfold Binary64.fixedText
  split
  · rfl
  · apply isPlain_append
    · unfold Binary64.signText
      split <;> rfl
    · split
      · rfl
      · exact isPlain_pointed places _

theorem isPlain_optionalText (value : Option Binary64) (places : Nat) :
    isPlain (optionalText value places) = true := by
  cases value with
  | none => rfl
  | some x => exact isPlain_fixedText x places

theorem isPlain_token (status : DecoStatus) : isPlain status.token = true := by
  cases status <;> rfl

theorem isPlain_of_mem_fields {row : Row} : ∀ field ∈ row.fields, isPlain field = true := by
  simp only [Row.fields, List.forall_mem_cons]
  exact ⟨isPlain_repr _, isPlain_optionalText _ _, isPlain_optionalText _ _,
    isPlain_optionalText _ _, isPlain_optionalText _ _, isPlain_optionalText _ _,
    isPlain_token _, isPlain_repr _, isPlain_fixedText _ _, by simp⟩

theorem isPlain_of_mem_header : ∀ field ∈ header, isPlain field = true := by
  decide

/-- Two or more plain fields need no quotes. -/
theorem recordText_of_plain {first second : String} {rest : List String}
    (h : ∀ field ∈ first :: second :: rest, isPlain field = true) :
    recordText (first :: second :: rest) = ",".intercalate (first :: second :: rest) ++ "\n" := by
  have nonempty : ",".intercalate (first :: second :: rest) ≠ "" := by
    simp [String.intercalate_cons_cons]
  simp only [recordText, map_fieldText_of_plain h, if_neg nonempty]

theorem recordText_fields (row : Row) : recordText row.fields = row.line ++ "\n" :=
  recordText_of_plain isPlain_of_mem_fields

theorem recordText_header : recordText header = ",".intercalate header ++ "\n" :=
  recordText_of_plain isPlain_of_mem_header

theorem not_mem_of_plain {field : String} (h : isPlain field = true) {c : Char}
    (hc : isSpecial c = true) : c ∉ field.toList := by
  intro mem
  rw [isPlain_iff.1 h c mem] at hc
  cases hc

/-- Joining plain fields brings in commas and nothing else. -/
theorem not_mem_intercalate {fields : List String} (h : ∀ field ∈ fields, isPlain field = true)
    {c : Char} (hc : isSpecial c = true) (comma : c ≠ ',') :
    c ∉ (",".intercalate fields).toList := by
  induction fields with
  | nil => simp
  | cons first rest ih =>
    have hfirst : c ∉ first.toList := not_mem_of_plain (h first List.mem_cons_self) hc
    have hrest := ih fun field hf => h field (List.mem_cons_of_mem _ hf)
    cases rest with
    | nil => simpa using hfirst
    | cons second rest =>
      rw [String.intercalate_cons_cons, String.toList_append, String.toList_append]
      simp only [List.mem_append, not_or]
      exact ⟨⟨hfirst, by simpa using comma⟩, hrest⟩

/-- Plain fields are found again between the commas. -/
theorem splitAt_intercalate_plain {fields : List String} (ne : fields ≠ [])
    (h : ∀ field ∈ fields, isPlain field = true) :
    splitAt ',' (",".intercalate fields).toList = fields.map String.toList := by
  rw [String.toList_intercalate]
  apply splitAt_intercalate (by simpa using ne)
  intro part hpart
  obtain ⟨field, hfield, rfl⟩ := List.mem_map.1 hpart
  exact not_mem_of_plain (h field hfield) rfl

end Csv

/-- Lines that are each ended by a separator are found again, with nothing behind the last. -/
theorem splitAt_flatMap {separator : Char} {lines : List (List Char)}
    (h : ∀ line ∈ lines, separator ∉ line) :
    splitAt separator (lines.flatMap (· ++ [separator])) = lines ++ [[]] := by
  induction lines with
  | nil => rfl
  | cons line rest ih =>
    have hline : separator ∉ line := h line List.mem_cons_self
    have hrest := ih fun l hl => h l (List.mem_cons_of_mem _ hl)
    rw [List.flatMap_cons, List.append_assoc, List.singleton_append, splitAt_append hline, hrest]
    rfl

def tableLines (rows : List Row) : List String := ",".intercalate header :: rows.map Row.line

theorem toList_tableText (rows : List Row) :
    (tableText rows).toList = ((tableLines rows).map String.toList).flatMap (· ++ ['\n']) := by
  simp [tableText, tableLines, List.flatMap_map]

theorem line_cases {rows : List Row} {line : String} (h : line ∈ tableLines rows) :
    ∃ fields, line = ",".intercalate fields ∧ fields.length = header.length ∧
      ∀ field ∈ fields, Csv.isPlain field = true := by
  rcases List.mem_cons.1 h with rfl | h
  · exact ⟨header, rfl, rfl, Csv.isPlain_of_mem_header⟩
  · obtain ⟨row, -, rfl⟩ := List.mem_map.1 h
    exact ⟨row.fields, rfl, row.length_fields, Csv.isPlain_of_mem_fields⟩

theorem splitAt_tableText (rows : List Row) :
    splitAt '\n' (tableText rows).toList = (tableLines rows).map String.toList ++ [[]] := by
  rw [toList_tableText]
  apply splitAt_flatMap
  intro chars hchars
  obtain ⟨line, hline, rfl⟩ := List.mem_map.1 hchars
  obtain ⟨fields, rfl, -, plain⟩ := line_cases hline
  exact Csv.not_mem_intercalate plain rfl (by decide)

end DiveTable
