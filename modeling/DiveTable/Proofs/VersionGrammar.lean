import DiveTable.Version

/-! # The grammar of version numbers

Three numbers with points between them, and behind them a pre-release and a build, each a list of
identifiers with points between them. Main statements: a text is taken as a version just when the
grammar spells that version, `ofText_eq_some`; and a version has no other text, `text_of_spells`. -/
namespace DiveTable.Version

inductive IsNumeral : List Char → Prop
  | zero : IsNumeral ['0']
  | positive {lead : Char} {more : List Char} (digit : lead.isDigit = true) (notZero : lead ≠ '0')
    (digits : ∀ c ∈ more, c.isDigit = true) : IsNumeral (lead :: more)

structure Numeral (n : Nat) (part : List Char) : Prop where
  digits : IsNumeral part
  value : Nat.ofDigitChars 10 part 0 = n
  small : n < UInt64.size

structure IsIdentifier (part : List Char) : Prop where
  nonempty : part ≠ []
  characters : ∀ c ∈ part, c.isAlphanum = true ∨ c = '-'

/-- An identifier of a pre-release; one that has digits alone is a number. -/
inductive IsPreRelease : List Char → Prop
  | numeric {part : List Char} (h : IsNumeral part) : IsPreRelease part
  | mixed {part : List Char} (h : IsIdentifier part) (other : ∃ c ∈ part, c.isDigit = false) :
    IsPreRelease part

/-- Identifiers as they stand behind a mark. Where there are none, there is no mark either. -/
inductive Part (mark : Char) (is : List Char → Prop) : List (List Char) → List Char → Prop
  | absent : Part mark is [] []
  | present {parts : List (List Char)} (some' : parts ≠ []) (all : ∀ part ∈ parts, is part) :
    Part mark is parts (mark :: ['.'].intercalate parts)

inductive Spells : Version → List Char → Prop
  | version {major minor patch : Nat} {preRelease build : List (List Char)}
    {first second third behind last : List Char} (isMajor : Numeral major first)
    (isMinor : Numeral minor second) (isPatch : Numeral patch third)
    (isPreRelease : Part '-' IsPreRelease preRelease behind)
    (isBuild : Part '+' IsIdentifier build last) :
    Spells ⟨major, minor, patch, preRelease, build⟩
      (first ++ '.' :: second ++ '.' :: third ++ behind ++ last)

/-! ## Numbers -/

theorem isNumeral_iff {part : List Char} :
    IsNumeral part ↔ part ≠ [] ∧ isNumeric part = true ∧ hasLeadingZero part = false := by
  constructor
  · intro h
    cases h with
    | zero => decide
    | positive digit notZero digits => simp_all [isNumeric, hasLeadingZero]
  · rintro ⟨nonempty, numeric, noZero⟩
    cases part with
    | nil => exact absurd rfl nonempty
    | cons lead more =>
      simp only [isNumeric, List.all_cons, Bool.and_eq_true, List.all_eq_true] at numeric
      by_cases zero : lead = '0'
      · subst zero
        cases more with
        | nil => exact .zero
        | cons c more => simp [hasLeadingZero] at noZero
      · exact .positive numeric.1 zero numeric.2

theorem IsNumeral.isDigit {part : List Char} (h : IsNumeral part) :
    ∀ c ∈ part, c.isDigit = true :=
  List.all_eq_true.1 (isNumeral_iff.1 h).2.1

theorem number_eq_some {part : List Char} {n : Nat} :
    number? part = some n ↔ Numeral n part := by
  have numeral : (part ≠ [] ∧ isNumeric part ∧ !hasLeadingZero part) ↔ IsNumeral part := by
    rw [isNumeral_iff, Bool.not_eq_true']
  unfold number?
  dsimp only
  by_cases digits : IsNumeral part
  · rw [if_pos (numeral.2 digits)]
    constructor
    · intro h
      split at h
      · rename_i small
        obtain rfl := Option.some.inj h
        exact ⟨digits, rfl, small⟩
      · cases h
    · rintro ⟨-, rfl, small⟩
      exact if_pos small
  · rw [if_neg (mt numeral.1 digits)]
    constructor
    · intro h
      cases h
    · intro h
      exact absurd h.digits digits

theorem digitChar_of_isDigit {c : Char} (h : c.isDigit = true) :
    Nat.digitChar (c.toNat - '0'.toNat) = c ∧ c.toNat - '0'.toNat < 10 := by
  simp only [Char.isDigit, Bool.and_eq_true, decide_eq_true_eq, ge_iff_le, UInt32.le_iff_toNat_le]
    at h
  have bounds : 48 ≤ c.toNat ∧ c.toNat ≤ 57 := h
  have zero : '0'.toNat = 48 := rfl
  have small : c.toNat - 48 < 10 := by omega
  refine ⟨?_, by omega⟩
  apply Char.toNat_inj.1
  rw [zero, Nat.toNat_digitChar_of_lt_ten small]
  omega

/-- Digits behind a number that is not zero stand behind its digits. -/
theorem toDigits_ofDigitChars {start : Nat} (pos : 0 < start) {more : List Char}
    (digits : ∀ c ∈ more, c.isDigit = true) :
    Nat.toDigits 10 (Nat.ofDigitChars 10 more start) = Nat.toDigits 10 start ++ more := by
  induction more generalizing start with
  | nil => rw [Nat.ofDigitChars_nil, List.append_nil]
  | cons c more ih =>
    obtain ⟨isDigit, later⟩ := List.forall_mem_cons.1 digits
    obtain ⟨char, small⟩ := digitChar_of_isDigit isDigit
    rw [Nat.ofDigitChars_cons, ih (by omega) later,
      ← Nat.toDigits_append_toDigits (by decide) pos small, Nat.toDigits_of_lt_base small, char,
      List.append_assoc, List.singleton_append]

/-- The digits of a number are the only ones it has. -/
theorem Numeral.toDigits {n : Nat} {part : List Char} (h : Numeral n part) :
    Nat.toDigits 10 n = part := by
  obtain ⟨digits, rfl, -⟩ := h
  cases digits with
  | zero => rfl
  | @positive lead more digit notZero digits =>
    obtain ⟨char, small⟩ := digitChar_of_isDigit digit
    have pos : 0 < lead.toNat - '0'.toNat := by
      apply Nat.pos_of_ne_zero
      intro zero
      rw [zero] at char
      exact notZero char.symm
    rw [Nat.ofDigitChars_cons, Nat.mul_zero, Nat.zero_add, toDigits_ofDigitChars pos digits,
      Nat.toDigits_of_lt_base small, char, List.singleton_append]

/-! ## Identifiers -/

theorem isIdentifier_iff {part : List Char} : isIdentifier part = true ↔ IsIdentifier part := by
  simp only [isIdentifier, isIdentifierChar, Bool.and_eq_true, decide_eq_true_eq, List.all_eq_true,
    Bool.or_eq_true, beq_iff_eq]
  exact ⟨fun h => ⟨h.1, h.2⟩, fun h => ⟨h.nonempty, h.characters⟩⟩

theorem IsNumeral.isIdentifier {part : List Char} (h : IsNumeral part) : IsIdentifier part where
  nonempty := (isNumeral_iff.1 h).1
  characters c mem := by
    left
    rw [Char.isAlphanum, h.isDigit c mem, Bool.or_true]

theorem IsPreRelease.isIdentifier {part : List Char} (h : IsPreRelease part) :
    IsIdentifier part := by
  cases h with
  | numeric h => exact h.isIdentifier
  | mixed h _ => exact h

theorem isPreRelease_iff {part : List Char} :
    (isIdentifier part && !(isNumeric part && hasLeadingZero part)) = true ↔
      IsPreRelease part := by
  rw [Bool.and_eq_true, isIdentifier_iff, Bool.not_eq_true']
  constructor
  · rintro ⟨identifier, noZero⟩
    cases numeric : isNumeric part with
    | true =>
      rw [numeric, Bool.true_and] at noZero
      exact .numeric (isNumeral_iff.2 ⟨identifier.nonempty, numeric, noZero⟩)
    | false =>
      obtain ⟨c, mem, notDigit⟩ := List.all_eq_false.1 numeric
      exact .mixed identifier ⟨c, mem, Bool.eq_false_iff.2 notDigit⟩
  · intro h
    refine ⟨h.isIdentifier, ?_⟩
    cases h with
    | numeric h => rw [(isNumeral_iff.1 h).2.2, Bool.and_false]
    | mixed _ other =>
      obtain ⟨c, mem, notDigit⟩ := other
      have mixed : isNumeric part = false :=
        List.all_eq_false.2 ⟨c, mem, Bool.eq_false_iff.1 notDigit⟩
      rw [mixed, Bool.false_and]

theorem not_mem_of_isIdentifier {part : List Char} (h : IsIdentifier part) {c : Char}
    (other : c.isAlphanum = false) (noHyphen : c ≠ '-') : c ∉ part := by
  intro mem
  rcases h.characters c mem with alphanum | hyphen
  · rw [alphanum] at other
    cases other
  · exact noHyphen hyphen

theorem not_mem_of_isDigit {part : List Char} (h : ∀ c ∈ part, c.isDigit = true) {c : Char}
    (other : c.isDigit = false) : c ∉ part := by
  intro mem
  rw [h c mem] at other
  cases other

/-! ## Lists of identifiers -/

section

variable {is : List Char → Prop} {good : List Char → Bool} {text : List Char}
  {parts : List (List Char)}

theorem splitAt_good (spec : ∀ part, good part = true ↔ is part)
    (plain : ∀ part, is part → '.' ∉ part) :
    (if (splitAt '.' text).all good then some (splitAt '.' text) else none) = some parts ↔
      parts ≠ [] ∧ (∀ part ∈ parts, is part) ∧ text = ['.'].intercalate parts := by
  constructor
  · intro h
    split at h
    · rename_i all
      obtain rfl := Option.some.inj h
      exact ⟨splitAt_ne_nil '.' text, fun part mem => (spec part).1 (List.all_eq_true.1 all part mem),
        (intercalate_splitAt '.' text).symm⟩
    · cases h
  · rintro ⟨some', all, rfl⟩
    have split := splitAt_intercalate some' fun part mem => plain part (all part mem)
    rw [split, if_pos (List.all_eq_true.2 fun part mem => (spec part).2 (all part mem))]

theorem preRelease_eq_some : preRelease? text = some parts ↔
    parts ≠ [] ∧ (∀ part ∈ parts, IsPreRelease part) ∧ text = ['.'].intercalate parts :=
  splitAt_good (fun _ => isPreRelease_iff) fun _ h =>
    not_mem_of_isIdentifier h.isIdentifier (by decide) (by decide)

theorem build_eq_some : build? text = some parts ↔
    parts ≠ [] ∧ (∀ part ∈ parts, IsIdentifier part) ∧ text = ['.'].intercalate parts :=
  splitAt_good (fun _ => isIdentifier_iff) fun _ h =>
    not_mem_of_isIdentifier h (by decide) (by decide)

theorem optional_eq_some {mark : Char} {part? : List Char → Option (List (List Char))}
    (spec : ∀ {text parts}, part? text = some parts ↔
      parts ≠ [] ∧ (∀ part ∈ parts, is part) ∧ text = ['.'].intercalate parts)
    {cut : Option (List Char)} :
    optional part? cut = some parts ↔ Part mark is parts ((cut.map (mark :: ·)).getD []) := by
  cases cut with
  | none =>
    constructor
    · intro h
      cases h
      exact .absent
    · intro h
      generalize same : ((none : Option (List Char)).map (mark :: ·)).getD [] = behind at h
      cases h with
      | absent => rfl
      | present => cases same
  | some text =>
    constructor
    · intro h
      obtain ⟨some', all, rfl⟩ := spec.1 h
      exact .present some' all
    · intro h
      generalize same : ((some text).map (mark :: ·)).getD [] = behind at h
      cases h with
      | absent => cases same
      | present some' all => exact spec.2 ⟨some', all, (List.cons.inj same).2⟩

/-- A part is nothing, or something behind its mark. -/
theorem Part.exists_cut {mark : Char} (h : Part mark is parts text) :
    ∃ cut : Option (List Char), text = (cut.map (mark :: ·)).getD [] := by
  cases h with
  | absent => exact ⟨none, rfl⟩
  | present => exact ⟨some _, rfl⟩

theorem Part.not_mem {mark c : Char} (h : Part mark is parts text) (notMark : c ≠ mark)
    (notPoint : c ≠ '.') (plain : ∀ part, is part → c ∉ part) : c ∉ text := by
  cases h with
  | absent => exact List.not_mem_nil
  | present some' all =>
    simp only [List.mem_cons, not_or]
    refine ⟨notMark, fun mem => ?_⟩
    rcases mem_intercalate mem with ⟨part, inside, mem⟩ | same
    · exact plain part (all part inside) mem
    · exact notPoint same

theorem Part.marked {mark : Char} (h : Part mark is parts text) : marked mark parts = text := by
  cases h with
  | absent => rfl
  | present some' _ => exact if_neg some'

theorem cutAt_cut {mark : Char} {front : List Char} (h : mark ∉ front) (cut : Option (List Char)) :
    cutAt mark (front ++ (cut.map (mark :: ·)).getD []) = (front, cut) := by
  cases cut with
  | none =>
    rw [Option.map_none, Option.getD_none, List.append_nil]
    exact cutAt_of_not_mem h
  | some rest => exact cutAt_append h rest

end

/-! ## Versions -/

/-- Numbers with points between them hold no mark, and are found again at the points. -/
theorem core_of_numerals {major minor patch : Nat} {first second third : List Char}
    (isMajor : Numeral major first) (isMinor : Numeral minor second) (isPatch : Numeral patch third) :
    splitAt '.' (first ++ '.' :: second ++ '.' :: third) = [first, second, third] ∧
      ∀ c : Char, c.isDigit = false → c ≠ '.' → c ∉ first ++ '.' :: second ++ '.' :: third := by
  have noPoint {n : Nat} {part : List Char} (h : Numeral n part) : '.' ∉ part :=
    not_mem_of_isDigit h.digits.isDigit (by decide)
  constructor
  · rw [List.append_assoc, List.cons_append, splitAt_append (noPoint isMajor),
      splitAt_append (noPoint isMinor), splitAt_of_not_mem (noPoint isPatch)]
  · intro c other notPoint
    simp only [List.mem_append, List.mem_cons, not_or]
    exact ⟨⟨not_mem_of_isDigit isMajor.digits.isDigit other, notPoint,
      not_mem_of_isDigit isMinor.digits.isDigit other⟩, notPoint,
      not_mem_of_isDigit isPatch.digits.isDigit other⟩

theorem ofText_of_spells {v : Version} {text : List Char} (h : Spells v text) :
    ofText? text = some v := by
  cases h with
  | @version major minor patch preRelease build first second third behind last isMajor isMinor
    isPatch isPreRelease isBuild =>
    obtain ⟨points, plain⟩ := core_of_numerals isMajor isMinor isPatch
    have noPlus : '+' ∉ behind := isPreRelease.not_mem (by decide) (by decide) fun _ h =>
      not_mem_of_isIdentifier h.isIdentifier (by decide) (by decide)
    have front : '+' ∉ first ++ '.' :: second ++ '.' :: third ++ behind := by
      rw [List.mem_append, not_or]
      exact ⟨plain '+' (by decide) (by decide), noPlus⟩
    obtain ⟨cut, rfl⟩ := isPreRelease.exists_cut
    obtain ⟨cut', rfl⟩ := isBuild.exists_cut
    unfold ofText?
    rw [cutAt_cut front]
    dsimp only
    rw [cutAt_cut (plain '-' (by decide) (by decide))]
    dsimp only
    rw [points]
    dsimp only
    rw [number_eq_some.2 isMajor, number_eq_some.2 isMinor, number_eq_some.2 isPatch,
      (optional_eq_some preRelease_eq_some).2 isPreRelease,
      (optional_eq_some build_eq_some).2 isBuild]
    rfl

theorem spells_of_ofText {v : Version} {text : List Char} (h : ofText? text = some v) :
    Spells v text := by
  unfold ofText? at h
  dsimp only at h
  have front := cutAt_eq '+' text
  have core := cutAt_eq '-' (cutAt '+' text).1
  have points := intercalate_splitAt '.' (cutAt '-' (cutAt '+' text).1).1
  split at h
  · rename_i first second third parts
    obtain ⟨major, isMajor, h⟩ := Option.bind_eq_some_iff.1 h
    obtain ⟨minor, isMinor, h⟩ := Option.bind_eq_some_iff.1 h
    obtain ⟨patch, isPatch, h⟩ := Option.bind_eq_some_iff.1 h
    obtain ⟨preRelease, isPreRelease, h⟩ := Option.bind_eq_some_iff.1 h
    obtain ⟨build, isBuild, h⟩ := Option.bind_eq_some_iff.1 h
    obtain rfl := Option.some.inj h
    have whole : (first ++ '.' :: second ++ '.' :: third) = (cutAt '-' (cutAt '+' text).1).1 := by
      rw [← points, parts]
      simp [List.intercalate_cons_cons]
    rw [front, core, ← whole]
    exact .version (number_eq_some.1 isMajor) (number_eq_some.1 isMinor) (number_eq_some.1 isPatch)
      ((optional_eq_some preRelease_eq_some).1 isPreRelease)
      ((optional_eq_some build_eq_some).1 isBuild)
  · cases h

/-- A text is taken as a version just when it spells it. -/
theorem ofText_eq_some {v : Version} {text : List Char} :
    ofText? text = some v ↔ Spells v text := ⟨spells_of_ofText, ofText_of_spells⟩

/-- A version is written in one way. -/
theorem text_of_spells {v : Version} {text : List Char} (h : Spells v text) : v.text = text := by
  cases h with
  | version isMajor isMinor isPatch isPreRelease isBuild =>
    rw [Version.text, isMajor.toDigits, isMinor.toDigits, isPatch.toDigits, isPreRelease.marked,
      isBuild.marked]

end DiveTable.Version
