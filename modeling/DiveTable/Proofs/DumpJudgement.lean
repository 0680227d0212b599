import DiveTable.Dump
import DiveTable.Proofs.VersionGrammar
import Mathlib.Data.List.Forall2
import Mathlib.Data.List.TakeWhile

/-! # How a document is judged

A document that can be read is accepted for its version and its device, in this order. Main
statement: `Dump.parse_judges` tells both in terms of the text around which there is white space, of
the grammar of versions, and of the letters of the device. -/
namespace DiveTable

structure Trimmed (text trimmed : List Char) : Prop where
  around : ∃ front rest, text = front ++ trimmed ++ rest ∧ (∀ c ∈ front, isBlank c = true) ∧
    ∀ c ∈ rest, isBlank c = true
  first : ∀ c, trimmed.head? = some c → isBlank c = false
  last : ∀ c, trimmed.getLast? = some c → isBlank c = false

theorem dropWhile_of_head {p : Char → Bool} {text : List Char}
    (h : ∀ c, text.head? = some c → p c = false) : text.dropWhile p = text := by
  cases text with
  | nil => rfl
  | cons c text => exact List.dropWhile_cons_of_neg (Bool.eq_false_iff.1 (h c rfl))

theorem head_dropWhile {p : Char → Bool} {text : List Char} {c : Char}
    (h : (text.dropWhile p).head? = some c) : p c = false := by
  have kept := List.head?_dropWhile_not p text
  rw [h] at kept
  simpa using kept

theorem trimmed_trimBlank (text : List Char) : Trimmed text (trimBlank text) where
  around := by
    refine ⟨text.takeWhile isBlank,
      ((text.dropWhile isBlank).reverse.takeWhile isBlank).reverse, ?_,
      fun _ => List.mem_takeWhile_imp, ?_⟩
    · rw [trimBlank, List.append_assoc, ← List.reverse_append, List.takeWhile_append_dropWhile,
        List.reverse_reverse, List.takeWhile_append_dropWhile]
    · intro c mem
      exact List.mem_takeWhile_imp (List.mem_reverse.1 mem)
  first := by
    intro c h
    -- what is left at the front is left when the back is taken off too
    obtain ⟨rest, front⟩ : trimBlank text <+: text.dropWhile isBlank := by
      rw [trimBlank, ← List.reverse_suffix, List.reverse_reverse]
      exact List.dropWhile_suffix isBlank
    apply head_dropWhile
    rw [← front, List.head?_append, h]
    rfl
  last := by
    intro c h
    rw [trimBlank, List.getLast?_reverse] at h
    exact head_dropWhile h

theorem Trimmed.eq {text trimmed : List Char} (h : Trimmed text trimmed) :
    trimmed = trimBlank text := by
  obtain ⟨⟨front, rest, rfl, blank, blank'⟩, first, last⟩ := h
  have back : rest.reverse.dropWhile isBlank = [] :=
    List.dropWhile_eq_nil_iff.2 fun c mem => blank' c (List.mem_reverse.1 mem)
  rw [trimBlank, List.append_assoc, List.dropWhile_append_of_pos blank]
  cases trimmed with
  | nil =>
    have nothing : ([] ++ rest).dropWhile isBlank = [] := List.dropWhile_eq_nil_iff.2 blank'
    rw [nothing]
    rfl
  | cons c more =>
    have front : (c :: more ++ rest).dropWhile isBlank = c :: more ++ rest :=
      dropWhile_of_head fun _ same => first _ same
    have kept : (c :: more).reverse.dropWhile isBlank = (c :: more).reverse :=
      dropWhile_of_head fun d same => last d (by rwa [List.head?_reverse] at same)
    rw [front, List.reverse_append,
      List.dropWhile_append_of_pos fun d mem => blank' d (List.mem_reverse.1 mem), kept,
      List.reverse_reverse]

/-! ## Letters and devices -/

structure CasePair (capital small : Char) : Prop where
  letter : 'A' ≤ capital ∧ capital ≤ 'Z'
  shifted : small.toNat = capital.toNat + 32

def SameLetter (c d : Char) : Prop := c = d ∨ CasePair c d ∨ CasePair d c

def SameButCase (a b : String) : Prop := List.Forall₂ SameLetter a.toList b.toList

theorem letter_iff {c : Char} : ('A' ≤ c ∧ c ≤ 'Z') ↔ 65 ≤ c.toNat ∧ c.toNat ≤ 90 := by
  simp only [Char.le_def, UInt32.le_iff_toNat_le]
  rfl

theorem toNat_toLower (c : Char) : c.toLower.toNat =
    if 65 ≤ c.toNat ∧ c.toNat ≤ 90 then c.toNat + 32 else c.toNat := by
  have capital : (c.val ≥ 'A'.val ∧ c.val ≤ 'Z'.val) ↔ 65 ≤ c.toNat ∧ c.toNat ≤ 90 := by
    simp only [ge_iff_le, UInt32.le_iff_toNat_le]
    rfl
  by_cases h : c.val ≥ 'A'.val ∧ c.val ≤ 'Z'.val
  · have lower : c.toLower.val = c.val + 32 := congrArg Char.val (dif_pos h)
    rw [if_pos (capital.1 h)]
    show c.toLower.val.toNat = c.toNat + 32
    have bound := (capital.1 h).2
    have same : c.val.toNat = c.toNat := rfl
    rw [lower, UInt32.toNat_add, same]
    exact Nat.mod_eq_of_lt (show c.toNat + 32 < 4294967296 by omega)
  · have kept : c.toLower = c := dif_neg h
    rw [kept, if_neg (mt capital.2 h)]

theorem toLower_eq_iff {c d : Char} : c.toLower = d.toLower ↔ SameLetter c d := by
  rw [← Char.toNat_inj, toNat_toLower, toNat_toLower]
  constructor
  · intro h
    split at h <;> split at h
    · exact .inl (Char.toNat_inj.1 (by omega))
    · exact .inr (.inl ⟨letter_iff.2 ‹_›, h.symm⟩)
    · exact .inr (.inr ⟨letter_iff.2 ‹_›, h⟩)
    · exact .inl (Char.toNat_inj.1 h)
  · rintro (rfl | ⟨letter, shifted⟩ | ⟨letter, shifted⟩)
    · rfl
    · rw [if_pos (letter_iff.1 letter), if_neg (by have := letter_iff.1 letter; omega), shifted]
    · rw [if_neg (by have := letter_iff.1 letter; omega), if_pos (letter_iff.1 letter), shifted]

namespace Device

theorem sameLetters_iff {a b : String} : sameLetters a b = true ↔ SameButCase a b := by
  rw [sameLetters, beq_iff_eq, ← List.forall₂_eq_eq_eq, List.forall₂_map_left_iff,
    List.forall₂_map_right_iff]
  simp only [toLower_eq_iff, SameButCase]

structure Named (device : Device) (vendor product : String) : Prop where
  vendor : SameButCase device.vendor vendor
  product : SameButCase device.product product

theorem answersTo_iff {device : Device} {vendor product : String} :
    device.answersTo vendor product = true ↔ device.Named vendor product := by
  rw [answersTo, Bool.and_eq_true, sameLetters_iff, sameLetters_iff]
  exact ⟨fun h => ⟨h.1, h.2⟩, fun h => ⟨h.vendor, h.product⟩⟩

variable {vendor product : String}

/-- No two devices have one product name. -/
theorem supported_distinct : ∀ device ∈ supported, ∀ other ∈ supported,
    sameLetters device.product other.product = true → device = other := by
  decide

theorem named_unique {device other : Device} (mem : device ∈ supported) (mem' : other ∈ supported)
    (h : device.Named vendor product) (h' : other.Named vendor product) : device = other := by
  have same := sameLetters_iff.2 h.product
  have same' := sameLetters_iff.2 h'.product
  rw [sameLetters, beq_iff_eq] at same same'
  apply supported_distinct device mem other mem'
  rw [sameLetters, beq_iff_eq, same, same']

theorem answered {device : Device} (h : find? vendor product = some device) :
    device.Named vendor product := by
  unfold find? at h
  have answers := List.find?_some h
  exact answersTo_iff.1 answers

theorem find_eq_some {device : Device} : find? vendor product = some device ↔
    device ∈ supported ∧ device.Named vendor product := by
  constructor
  · intro h
    exact ⟨List.mem_of_find?_eq_some h, answered h⟩
  · rintro ⟨mem, named⟩
    cases found : find? vendor product with
    | none => exact absurd (answersTo_iff.2 named) (List.find?_eq_none.1 found device mem)
    | some other =>
      rw [named_unique (List.mem_of_find?_eq_some found) mem
        (answered found) named]

theorem find_eq_none : find? vendor product = none ↔
    ¬∃ device ∈ supported, device.Named vendor product := by
  rw [Option.eq_none_iff_forall_ne_some]
  simp only [ne_eq, find_eq_some, not_exists]

end Device

/-! ## Judgement -/

namespace Dump

theorem ofDocument_of_unspelled {document : Document}
    (h : ¬∃ v, Version.Spells v (trimBlank document.formatVersion.toList)) :
    ofDocument document = .error (.unsupportedVersion document.formatVersion) := by
  have none : Version.ofText? (trimBlank document.formatVersion.toList) = none := by
    apply Option.eq_none_iff_forall_ne_some.2
    intro v parsed
    exact h ⟨v, Version.ofText_eq_some.1 parsed⟩
  rw [ofDocument, none]

variable {document : Document} {v : Version}

theorem ofDocument_of_spells (h : Version.Spells v (trimBlank document.formatVersion.toList)) :
    ofDocument document =
      if v.major ≠ supportedMajor then
        .error (.unsupportedVersion (String.ofList (trimBlank document.formatVersion.toList)))
      else match Device.find? document.vendor document.product with
        | none => .error (.unsupportedDevice document.vendor document.product)
        | some device =>
          .ok {
            device, version := v
            dateTime? := document.dateTime
            maxDepth? := document.maxDepth
            diveTime? := document.diveTime
            samples := document.samples } := by
  rw [ofDocument, Version.ofText_eq_some.2 h]
  exact Version.text_of_spells h ▸ rfl

/-- A document is accepted for its version and its device. -/
theorem judged_of_ofDocument {dump : Dump} (accepted : ofDocument document = .ok dump) :
    Version.Spells dump.version (trimBlank document.formatVersion.toList) ∧
      dump.version.major = supportedMajor ∧ dump.device ∈ Device.supported ∧
      dump.device.Named document.vendor document.product := by
  by_cases spelled : ∃ v, Version.Spells v (trimBlank document.formatVersion.toList)
  · obtain ⟨v, h⟩ := spelled
    rw [ofDocument_of_spells h] at accepted
    split at accepted
    · cases accepted
    · rename_i major
      split at accepted
      · cases accepted
      · rename_i device found
        cases accepted
        obtain ⟨mem, named⟩ := Device.find_eq_some.1 found
        exact ⟨h, Decidable.not_not.1 major, mem, named⟩
  · rw [ofDocument_of_unspelled spelled] at accepted
    cases accepted

theorem ofDocument_of_judged (h : Version.Spells v (trimBlank document.formatVersion.toList))
    (major : v.major = supportedMajor) {device : Device} (mem : device ∈ Device.supported)
    (named : device.Named document.vendor document.product) :
    ∃ dump, ofDocument document = .ok dump := by
  rw [ofDocument_of_spells h, if_neg (fun other => other major), Device.find_eq_some.2 ⟨mem, named⟩]
  exact ⟨_, rfl⟩

/-- A document is accepted just when its version, but for the white space around it, is one of the
first major number, and its vendor and product are those of a supported device but for the case of
their letters. A version that cannot be read is told as it stands, one of another major number
without the white space, and the device is judged last. -/
theorem parse_judges {input : List UInt8} {document : Document}
    (read : Document.parse input = .ok document) :
    ∃ trimmed, Trimmed document.formatVersion.toList trimmed ∧
      (∀ other, Trimmed document.formatVersion.toList other → other = trimmed) ∧
      ((∃ dump, parse input = .ok dump) ↔
        (∃ v, Version.Spells v trimmed ∧ v.major = 1) ∧
          ∃ device ∈ Device.supported, device.Named document.vendor document.product) ∧
      (∀ dump, parse input = .ok dump →
        Version.Spells dump.version trimmed ∧ dump.version.text = trimmed ∧
          dump.version.major = 1 ∧ dump.device ∈ Device.supported ∧
          dump.device.Named document.vendor document.product ∧
          ∀ device ∈ Device.supported, device.Named document.vendor document.product →
            device = dump.device) ∧
      ((¬∃ v, Version.Spells v trimmed) →
        parse input = .error (.unsupportedVersion document.formatVersion)) ∧
      (∀ v, Version.Spells v trimmed → v.major ≠ 1 →
        parse input = .error (.unsupportedVersion (String.ofList trimmed))) ∧
      (∀ v, Version.Spells v trimmed → v.major = 1 →
        (¬∃ device ∈ Device.supported, device.Named document.vendor document.product) →
        parse input = .error (.unsupportedDevice document.vendor document.product)) := by
  rw [parse_of_document read]
  refine ⟨trimBlank document.formatVersion.toList, trimmed_trimBlank _, fun _ h => h.eq, ?_, ?_,
    ofDocument_of_unspelled, ?_, ?_⟩
  · constructor
    · rintro ⟨dump, accepted⟩
      obtain ⟨spelled, major, mem, named⟩ := judged_of_ofDocument accepted
      exact ⟨⟨dump.version, spelled, major⟩, dump.device, mem, named⟩
    · rintro ⟨⟨v, spelled, major⟩, device, mem, named⟩
      exact ofDocument_of_judged spelled major mem named
  · intro dump accepted
    obtain ⟨spelled, major, mem, named⟩ := judged_of_ofDocument accepted
    refine ⟨spelled, Version.text_of_spells spelled, major, mem, named, ?_⟩
    intro device mem' named'
    exact Device.named_unique mem' mem named' named
  · intro v spelled major
    rw [ofDocument_of_spells spelled]
    exact if_pos major
  · intro v spelled major other
    rw [ofDocument_of_spells spelled, if_neg (fun other => other major), Device.find_eq_none.2 other]

def spacedDump : List UInt8 :=
  ("\x7b\"format_version\":\"\u00a01.2.3-rc.1+b-7\u00a0\",\"vendor\":\"DIVESOFT\"," ++
    "\"product\":\"freedom\"\x7d").toUTF8.toList

theorem spacedDump_judged : ∃ document, Document.parse spacedDump = .ok document ∧
    ∃ trimmed, Trimmed document.formatVersion.toList trimmed ∧
      ∃ dump, parse spacedDump = .ok dump ∧ dump.version.text = trimmed := by
  have accepted : ((Document.parse spacedDump).toOption.map fun _ => ()) = some () ∧
      ((parse spacedDump).toOption.map fun _ => ()) = some () := by
    decide +kernel
  cases read : Document.parse spacedDump with
  | error fault =>
    rw [read] at accepted
    cases accepted.1
  | ok document =>
    obtain ⟨trimmed, trim, -, -, told, -⟩ := parse_judges read
    cases judged : parse spacedDump with
    | error fault =>
      rw [judged] at accepted
      cases accepted.2
    | ok dump => exact ⟨document, rfl, trimmed, trim, dump, rfl, (told dump judged).2.1⟩

end Dump

end DiveTable
