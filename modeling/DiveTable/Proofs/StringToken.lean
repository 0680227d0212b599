import DiveTable.Json.Skip
import DiveTable.Proofs.Utf8Text

/-! # Strings and their spellings

A character is spelled as it is, by a short escape, by its code in four digits, or by the codes of
a surrogate pair. A string that is read has a text that it spells, and every spelling of a text is
read as that text. A string that is only skipped need not spell any. -/
namespace DiveTable.Json

open Ascii

def unit? (a b c d : UInt8) : Option Nat :=
  match hexDigit? a, hexDigit? b, hexDigit? c, hexDigit? d with
  | some a, some b, some c, some d => some (((a * 16 + b) * 16 + c) * 16 + d)
  | _, _, _, _ => none

structure Plain (b : UInt8) : Prop where
  notQuote : b ≠ quote
  notBackslash : b ≠ backslash
  printable : ¬b < space

/-- What may stand between the quotes of a string. -/
inductive Token : List UInt8 → Prop
  | nil : Token []
  | byte {b : UInt8} {rest : List UInt8} (plain : Plain b) (h : Token rest) : Token (b :: rest)
  | short {b e : UInt8} {rest : List UInt8} (escape : shortEscape? b = some e) (h : Token rest) :
    Token (backslash :: b :: rest)
  | unit {a b c d : UInt8} {n : Nat} {rest : List UInt8} (digits : unit? a b c d = some n)
    (h : Token rest) : Token (backslash :: lowerU :: a :: b :: c :: d :: rest)

inductive Escape : Char → List UInt8 → Prop
  | short {b e : UInt8} (escape : shortEscape? b = some e) :
    Escape (Char.ofNat e.toNat) [backslash, b]
  | unit {a b c d : UInt8} {n : Nat} (digits : unit? a b c d = some n)
    (character : n < 0xD800 ∨ 0xDFFF < n) :
    Escape (Char.ofNat n) [backslash, lowerU, a, b, c, d]
  | pair {a b c d a' b' c' d' : UInt8} {high low : Nat} (first : unit? a b c d = some high)
    (second : unit? a' b' c' d' = some low) (isHigh : 0xD800 ≤ high ∧ high ≤ 0xDBFF)
    (isLow : 0xDC00 ≤ low ∧ low ≤ 0xDFFF) :
    Escape (Char.ofNat (0x10000 + (high - 0xD800) * 0x400 + (low - 0xDC00)))
      [backslash, lowerU, a, b, c, d, backslash, lowerU, a', b', c', d']

/-- A spelling of a character: an escape of it, or its own bytes if it needs no escape. -/
inductive Spelling : Char → List UInt8 → Prop
  | raw {c : Char} (printable : 0x20 ≤ c.toNat) (notQuote : c ≠ '"') (notBackslash : c ≠ '\\') :
    Spelling c (String.utf8EncodeChar c)
  | escape {c : Char} {bytes : List UInt8} (h : Escape c bytes) : Spelling c bytes

inductive SpellsText : List Char → List UInt8 → Prop
  | nil : SpellsText [] []
  | cons {c : Char} {text : List Char} {front rest : List UInt8} (first : Spelling c front)
    (h : SpellsText text rest) : SpellsText (c :: text) (front ++ rest)

theorem shortEscape_small {b e : UInt8} (h : shortEscape? b = some e) : e.toNat < 0x80 := by
  unfold shortEscape? at h
  repeat' split at h
  all_goals
    cases h
    try decide

theorem ne_lowerU_of_short {b e : UInt8} (h : shortEscape? b = some e) : b ≠ lowerU := by
  rintro rfl
  cases h

theorem hexSteps_eq (a b c d : UInt8) :
    hexStep (hexStep (hexStep (hexStep (some 0) a) b) c) d = unit? a b c d := by
  unfold hexStep unit?
  cases hexDigit? a <;> cases hexDigit? b <;> cases hexDigit? c <;> cases hexDigit? d <;>
    simp

/-! ## Strings that are read -/

theorem content_quote (s : List UInt8) : content .plain (quote :: s) = .ok ([], s) := by
  rw [content, if_pos rfl]

theorem content_plain {b : UInt8} (h : Plain b) (s : List UInt8) :
    content .plain (b :: s) = pushBytes [b] (content .plain s) := by
  rw [content, if_neg h.notQuote, if_neg h.notBackslash, if_neg h.printable]

theorem content_short {b e : UInt8} (h : shortEscape? b = some e) (s : List UInt8) :
    content .plain (backslash :: b :: s) = pushBytes [e] (content .plain s) := by
  rw [content, if_neg (by decide), if_pos rfl, content, if_neg (ne_lowerU_of_short h), h]

theorem content_digit (high : Option Nat) {read : Nat} (h : read < 3) {value : Option Nat}
    {b : UInt8} {s : List UInt8} :
    content (.hex high read value) (b :: s) =
      content (.hex high (read + 1) (hexStep value b)) s := by
  conv => lhs; unfold content
  exact if_pos h

theorem content_lastDigit (high value : Option Nat) (b : UInt8) (s : List UInt8) :
    content (.hex high 3 value) (b :: s) =
      match hexStep value b with
      | none => .error (.before .badEscape s)
      | some unit =>
        match codeUnit high unit with
        | .error cause => .error (.before cause s)
        | .ok (.inl c) => pushBytes (String.utf8EncodeChar c) (content .plain s)
        | .ok (.inr h) => content (.pairBackslash h) s := by
  conv => lhs; unfold content
  exact if_neg (by decide)

theorem content_unit (high : Option Nat) (a b c d : UInt8) (s : List UInt8) :
    content (.hex high 0 (some 0)) (a :: b :: c :: d :: s) =
      match unit? a b c d with
      | none => .error (.before .badEscape s)
      | some unit =>
        match codeUnit high unit with
        | .error cause => .error (.before cause s)
        | .ok (.inl c) => pushBytes (String.utf8EncodeChar c) (content .plain s)
        | .ok (.inr h) => content (.pairBackslash h) s := by
  rw [← hexSteps_eq, content_digit high (by decide), content_digit high (by decide),
    content_digit high (by decide), content_lastDigit]

theorem codeUnit_character {n : Nat} (h : n < 0xD800 ∨ 0xDFFF < n) :
    codeUnit none n = .ok (.inl (Char.ofNat n)) := by
  unfold codeUnit
  dsimp only
  rw [if_neg (by omega), if_neg (by omega)]

theorem codeUnit_high {n : Nat} (h : 0xD800 ≤ n ∧ n ≤ 0xDBFF) :
    codeUnit none n = .ok (.inr n) := by
  unfold codeUnit
  dsimp only
  rw [if_neg (by omega), if_pos h]

theorem codeUnit_low {high low : Nat} (h : 0xDC00 ≤ low ∧ low ≤ 0xDFFF) :
    codeUnit (some high) low =
      .ok (.inl (Char.ofNat (0x10000 + (high - 0xD800) * 0x400 + (low - 0xDC00)))) := by
  unfold codeUnit
  dsimp only
  rw [if_pos h]

/-- By itself a unit is a character or the first half of a pair. -/
theorem codeUnit_none_eq_ok {n : Nat} {meaning : Char ⊕ Nat} (h : codeUnit none n = .ok meaning) :
    ((n < 0xD800 ∨ 0xDFFF < n) ∧ meaning = .inl (Char.ofNat n)) ∨
      ((0xD800 ≤ n ∧ n ≤ 0xDBFF) ∧ meaning = .inr n) := by
  unfold codeUnit at h
  dsimp only at h
  by_cases isLow : 0xDC00 ≤ n ∧ n ≤ 0xDFFF
  · rw [if_pos isLow] at h
    cases h
  · rw [if_neg isLow] at h
    by_cases isHigh : 0xD800 ≤ n ∧ n ≤ 0xDBFF
    · rw [if_pos isHigh] at h
      exact .inr ⟨isHigh, (Except.ok.inj h).symm⟩
    · rw [if_neg isHigh] at h
      exact .inl ⟨by omega, (Except.ok.inj h).symm⟩

theorem codeUnit_some_eq_ok {high low : Nat} {meaning : Char ⊕ Nat}
    (h : codeUnit (some high) low = .ok meaning) :
    (0xDC00 ≤ low ∧ low ≤ 0xDFFF) ∧
      meaning = .inl (Char.ofNat (0x10000 + (high - 0xD800) * 0x400 + (low - 0xDC00))) := by
  by_cases isLow : 0xDC00 ≤ low ∧ low ≤ 0xDFFF
  · rw [codeUnit_low isLow] at h
    exact ⟨isLow, (Except.ok.inj h).symm⟩
  · unfold codeUnit at h
    dsimp only at h
    rw [if_neg isLow] at h
    cases h

theorem content_unicode (s : List UInt8) :
    content .plain (backslash :: lowerU :: s) = content (.hex none 0 (some 0)) s := by
  rw [content, if_neg (by decide), if_pos rfl, content, if_pos rfl]

theorem content_pairBackslash (high : Nat) (s : List UInt8) :
    content (.pairBackslash high) (backslash :: lowerU :: s) =
      content (.hex (some high) 0 (some 0)) s := by
  rw [content, if_pos rfl, content, if_pos rfl]

theorem utf8EncodeChar_small {n : Nat} (h : n < 0x80) :
    String.utf8EncodeChar (Char.ofNat n) = [UInt8.ofNat n] := by
  have byte := Utf8.toNat_byte (show n < 256 by omega)
  have coded := Utf8.Coded.one (show (UInt8.ofNat n).toNat < 0x80 by omega)
  rw [byte] at coded
  exact coded.bytes_eq

theorem content_escape {c : Char} {front : List UInt8} (h : Escape c front) (s : List UInt8) :
    content .plain (front ++ s) = pushBytes (String.utf8EncodeChar c) (content .plain s) := by
  cases h with
  | short escape =>
    rw [utf8EncodeChar_small (shortEscape_small escape), UInt8.ofNat_toNat]
    exact content_short escape s
  | unit digits character =>
    refine (content_unicode _).trans ((content_unit _ _ _ _ _ s).trans ?_)
    rw [digits]
    dsimp only
    rw [codeUnit_character character]
  | pair first second isHigh isLow =>
    refine (content_unicode _).trans ((content_unit _ _ _ _ _ _).trans ?_)
    rw [first]
    dsimp only
    rw [codeUnit_high isHigh]
    refine (content_pairBackslash _ _).trans ((content_unit _ _ _ _ _ s).trans ?_)
    rw [second]
    dsimp only
    rw [codeUnit_low isLow]

theorem pushBytes_append (front more : List UInt8) (read : Read (List UInt8)) :
    pushBytes front (pushBytes more read) = pushBytes (front ++ more) read := by
  cases read with
  | error stop => rfl
  | ok pair => simp [pushBytes]

theorem content_plains {front : List UInt8} (h : ∀ b ∈ front, Plain b) (s : List UInt8) :
    content .plain (front ++ s) = pushBytes front (content .plain s) := by
  induction front with
  | nil =>
    cases hs : content .plain s with
    | error stop => exact hs
    | ok pair => exact hs
  | cons b front ih =>
    have first := content_plain (h b List.mem_cons_self) (front ++ s)
    rw [List.cons_append, first, ih fun b hb => h b (List.mem_cons_of_mem _ hb), pushBytes_append]
    rfl

theorem plain_of_high {b : UInt8} (h : 0x80 ≤ b.toNat) : Plain b := by
  constructor
  · rintro rfl
    exact absurd h (by decide)
  · rintro rfl
    exact absurd h (by decide)
  · intro low
    have := UInt8.lt_iff_toNat_lt.1 low
    have : space.toNat = 32 := rfl
    omega

/-- The bytes of a character that needs no escape stand for themselves. -/
theorem plain_of_raw {c : Char} (printable : 0x20 ≤ c.toNat) (notQuote : c ≠ '"')
    (notBackslash : c ≠ '\\') : ∀ b ∈ String.utf8EncodeChar c, Plain b := by
  have coded := Utf8.coded_utf8EncodeChar c
  revert coded
  generalize String.utf8EncodeChar c = bytes
  intro coded b hb
  cases coded with
  | one h =>
    rename_i a
    have value : (Char.ofNat a.toNat).toNat = a.toNat :=
      Utf8.toNat_ofNat_of_valid (.inl (by omega))
    obtain rfl := List.mem_singleton.1 hb
    constructor
    · rintro rfl
      exact notQuote rfl
    · rintro rfl
      exact notBackslash rfl
    · intro low
      have := UInt8.lt_iff_toNat_lt.1 low
      have : space.toNat = 32 := rfl
      omega
  | two h =>
    have := Utf8.isPair_iff.1 h
    simp only [List.mem_cons, List.not_mem_nil, or_false] at hb
    rcases hb with rfl | rfl <;> exact plain_of_high (by omega)
  | three h =>
    have := Utf8.isTriple_iff.1 h
    simp only [List.mem_cons, List.not_mem_nil, or_false] at hb
    rcases hb with rfl | rfl | rfl <;> exact plain_of_high (by omega)
  | four h =>
    have := Utf8.isQuadruple_iff.1 h
    simp only [List.mem_cons, List.not_mem_nil, or_false] at hb
    rcases hb with rfl | rfl | rfl | rfl <;> exact plain_of_high (by omega)

theorem content_spelling {c : Char} {front : List UInt8} (h : Spelling c front)
    (s : List UInt8) :
    content .plain (front ++ s) = pushBytes (String.utf8EncodeChar c) (content .plain s) := by
  cases h with
  | raw printable notQuote notBackslash =>
    exact content_plains (plain_of_raw printable notQuote notBackslash) s
  | escape h => exact content_escape h s

theorem content_text {text : List Char} {raw : List UInt8} (h : SpellsText text raw)
    (s : List UInt8) :
    content .plain (raw ++ s) = pushBytes (Utf8.encode text) (content .plain s) := by
  induction h with
  | nil => exact content_plains (fun b hb => absurd hb (List.not_mem_nil)) s
  | @cons c text front rest first h ih =>
    rw [List.append_assoc, content_spelling first, ih, pushBytes_append]
    rfl

/-- A string is read as the text that it spells. -/
theorem readString_text {text : List Char} {raw : List UInt8} (h : SpellsText text raw)
    (s : List UInt8) : readString (raw ++ quote :: s) = .ok (String.ofList text, s) := by
  rw [readString, content_text h, content_quote, pushBytes, List.append_nil]
  dsimp only
  rw [Utf8.decode_encode]

theorem pushBytes_eq_ok {front bytes t : List UInt8} {read : Read (List UInt8)}
    (h : pushBytes front read = .ok (bytes, t)) :
    ∃ more, bytes = front ++ more ∧ read = .ok (more, t) := by
  cases read with
  | error stop => cases h
  | ok pair =>
    cases h
    exact ⟨pair.1, rfl, rfl⟩

/-- Four digits are read, or the string is refused. -/
theorem content_hex_cases {high : Option Nat} {s bytes t : List UInt8}
    (h : content (.hex high 0 (some 0)) s = .ok (bytes, t)) :
    ∃ a b c d rest n, s = a :: b :: c :: d :: rest ∧ unit? a b c d = some n ∧
      ((∃ ch, codeUnit high n = .ok (.inl ch) ∧
        pushBytes (String.utf8EncodeChar ch) (content .plain rest) = .ok (bytes, t)) ∨
      ∃ first, codeUnit high n = .ok (.inr first) ∧
        content (.pairBackslash first) rest = .ok (bytes, t)) := by
  match s with
  | [] => cases h
  | [_] => cases h
  | [_, _] => cases h
  | [_, _, _] => cases h
  | a :: b :: c :: d :: rest =>
    rw [content_unit] at h
    cases digits : unit? a b c d with
    | none =>
      rw [digits] at h
      cases h
    | some n =>
      rw [digits] at h
      dsimp only at h
      refine ⟨a, b, c, d, rest, n, rfl, digits, ?_⟩
      cases meaning : codeUnit high n with
      | error cause =>
        rw [meaning] at h
        cases h
      | ok character =>
        rw [meaning] at h
        cases character with
        | inl ch => exact .inl ⟨ch, rfl, h⟩
        | inr first => exact .inr ⟨first, rfl, h⟩

/-- Behind the first half of a pair the second one is read, or the string is refused. -/
theorem content_pair_cases {high : Nat} {s bytes t : List UInt8}
    (h : content (.pairBackslash high) s = .ok (bytes, t)) :
    ∃ a b c d rest low more, s = backslash :: lowerU :: a :: b :: c :: d :: rest ∧
      unit? a b c d = some low ∧ (0xDC00 ≤ low ∧ low ≤ 0xDFFF) ∧
      bytes = String.utf8EncodeChar
        (Char.ofNat (0x10000 + (high - 0xD800) * 0x400 + (low - 0xDC00))) ++ more ∧
      content .plain rest = .ok (more, t) := by
  match s with
  | [] => cases h
  | [b] =>
    rw [content] at h
    split at h <;> cases h
  | b :: u :: rest =>
    rw [content] at h
    by_cases first : b = backslash
    · rw [if_pos first, content] at h
      by_cases second : u = lowerU
      · rw [if_pos second] at h
        obtain ⟨a', b', c', d', rest, low, rfl, digits,
          ⟨ch, meaning, pushed⟩ | ⟨half, meaning, -⟩⟩ := content_hex_cases h
        · obtain ⟨isLow, same⟩ := codeUnit_some_eq_ok meaning
          obtain ⟨more, hbytes, read⟩ := pushBytes_eq_ok pushed
          rw [Sum.inl.inj same] at hbytes
          exact ⟨a', b', c', d', rest, low, more, by rw [first, second], digits, isLow, hbytes,
            read⟩
        · cases (codeUnit_some_eq_ok meaning).2
      · rw [if_neg second] at h
        cases h
    · rw [if_neg first] at h
      cases h

theorem content_backslash {s bytes t : List UInt8}
    (h : content .plain (backslash :: s) = .ok (bytes, t)) :
    ∃ c front rest more, Escape c front ∧ backslash :: s = front ++ rest ∧
      bytes = String.utf8EncodeChar c ++ more ∧ content .plain rest = .ok (more, t) := by
  cases s with
  | nil => cases h
  | cons b rest =>
    by_cases unicode : b = lowerU
    · subst unicode
      rw [content_unicode] at h
      obtain ⟨a, b, c, d, rest, n, rfl, digits, ⟨ch, meaning, pushed⟩ | ⟨high, meaning, paired⟩⟩ :=
        content_hex_cases h
      · rcases codeUnit_none_eq_ok meaning with ⟨character, same⟩ | ⟨-, same⟩
        · obtain ⟨more, hbytes, read⟩ := pushBytes_eq_ok pushed
          cases same
          exact ⟨_, _, rest, more, .unit digits character, rfl, hbytes, read⟩
        · cases same
      · rcases codeUnit_none_eq_ok meaning with ⟨-, same⟩ | ⟨isHigh, same⟩
        · cases same
        · cases same
          obtain ⟨a', b', c', d', rest, low, more, rfl, second, isLow, hbytes, read⟩ :=
            content_pair_cases paired
          exact ⟨_, _, rest, more, .pair digits second isHigh isLow, rfl, hbytes, read⟩
    · rw [content, if_neg (by decide), if_pos rfl, content, if_neg unicode] at h
      cases escape : shortEscape? b with
      | none =>
        rw [escape] at h
        cases h
      | some e =>
        rw [escape] at h
        obtain ⟨more, hbytes, read⟩ := pushBytes_eq_ok h
        refine ⟨_, _, rest, more, .short escape, rfl, ?_, read⟩
        rw [utf8EncodeChar_small (shortEscape_small escape), UInt8.ofNat_toNat]
        exact hbytes

/-- What a string that is read begins with. -/
theorem content_cases {s bytes t : List UInt8} (h : content .plain s = .ok (bytes, t)) :
    (s = quote :: t ∧ bytes = []) ∨
    (∃ b rest more, Plain b ∧ s = b :: rest ∧ bytes = b :: more ∧
      content .plain rest = .ok (more, t)) ∨
    ∃ c front rest more, Escape c front ∧ s = front ++ rest ∧
      bytes = String.utf8EncodeChar c ++ more ∧ content .plain rest = .ok (more, t) := by
  cases s with
  | nil => cases h
  | cons b rest =>
    by_cases ends : b = quote
    · subst ends
      rw [content_quote] at h
      cases h
      exact .inl ⟨rfl, rfl⟩
    · by_cases escapes : b = backslash
      · subst escapes
        exact .inr (.inr (content_backslash h))
      · by_cases control : b < space
        · rw [content, if_neg ends, if_neg escapes, if_pos control] at h
          cases h
        · have plain : Plain b := ⟨ends, escapes, control⟩
          rw [content_plain plain] at h
          obtain ⟨more, hbytes, read⟩ := pushBytes_eq_ok h
          exact .inr (.inl ⟨b, rest, more, plain, rfl, hbytes, read⟩)

theorem head_utf8EncodeChar (c : Char) :
    ∃ b more, String.utf8EncodeChar c = b :: more ∧ Utf8.isContinuation b = false := by
  have coded := Utf8.coded_utf8EncodeChar c
  cases bytes : String.utf8EncodeChar c with
  | nil => exact absurd bytes coded.ne_nil
  | cons b more =>
    rw [bytes] at coded
    exact ⟨b, more, rfl, coded.head⟩

/-- No escape stands for part of a character, so the bytes that continue one stand for
themselves. -/
theorem content_continuations {tail s bytes t : List UInt8}
    (h : ∀ b ∈ tail, Utf8.isContinuation b = true)
    (read : content .plain s = .ok (tail ++ bytes, t)) :
    ∃ rest, s = tail ++ rest ∧ content .plain rest = .ok (bytes, t) := by
  induction tail generalizing s with
  | nil => exact ⟨s, rfl, read⟩
  | cons b tail ih =>
    have continues := h b List.mem_cons_self
    rcases content_cases read with ⟨-, empty⟩ | ⟨b', later, more, -, rfl, hbytes, behind⟩ |
      ⟨c, front, later, more, -, -, hbytes, -⟩
    · cases empty
    · rw [List.cons_append] at hbytes
      obtain ⟨rfl, rfl⟩ := List.cons.inj hbytes
      obtain ⟨rest, rfl, found⟩ := ih (fun b hb => h b (List.mem_cons_of_mem _ hb)) behind
      exact ⟨rest, rfl, found⟩
    · obtain ⟨first, others, head, not⟩ := head_utf8EncodeChar c
      rw [head, List.cons_append] at hbytes
      obtain ⟨rfl, -⟩ := List.cons.inj hbytes
      rw [continues] at not
      cases not

theorem text_of_push {c : Char} {text : List Char} {read : List Char × List UInt8}
    (h : Utf8.push c read = (text, [])) : ∃ more, text = c :: more ∧ read = (more, []) := by
  have first : c :: read.1 = text := congrArg Prod.fst h
  have second : read.2 = [] := congrArg Prod.snd h
  exact ⟨read.1, first.symm, Prod.ext rfl second⟩

/-- A character whose first byte stands for itself is spelled by its own bytes. -/
theorem spelling_of_coded {c : Char} {b : UInt8} {tail : List UInt8}
    (coded : Utf8.Coded c (b :: tail)) (plain : Plain b) : Spelling c (b :: tail) := by
  rw [← coded.bytes_eq]
  rcases coded.small_or_large with ⟨small, value⟩ | large
  · have same {x : UInt8} (hx : c.toNat = x.toNat) : b = x :=
      UInt8.toNat_inj.1 (value.symm.trans hx)
    have notLow := plain.printable
    rw [UInt8.lt_iff_toNat_lt, show space.toNat = 32 from rfl] at notLow
    refine .raw (by omega) ?_ ?_
    · rintro rfl
      exact plain.notQuote (same rfl)
    · rintro rfl
      exact plain.notBackslash (same rfl)
  · refine .raw (by omega) ?_ ?_
    · rintro rfl
      exact absurd large (by decide)
    · rintro rfl
      exact absurd large (by decide)

theorem length_lt_behind (b : UInt8) (front rest : List UInt8) :
    rest.length < (b :: (front ++ rest)).length := by
  rw [List.length_cons, List.length_append]
  omega

theorem text_of_content {s bytes t : List UInt8} {text : List Char}
    (read : content .plain s = .ok (bytes, t)) (decoded : Utf8.decode bytes = (text, [])) :
    ∃ raw, s = raw ++ quote :: t ∧ SpellsText text raw := by
  -- on the length of what is left, since a character takes several bytes at once
  induction size : s.length using Nat.strongRecOn generalizing s bytes text with
  | _ n ih =>
    subst size
    rcases content_cases read with ⟨rfl, rfl⟩ | ⟨b, rest, more, plain, rfl, rfl, behind⟩ |
      ⟨c, front, rest, more, escape, rfl, rfl, behind⟩
    · cases decoded
      exact ⟨[], rfl, .nil⟩
    · rcases Utf8.decode_step (b :: more) with ⟨c, front, after, coded, hfront⟩ | stuck
      · rw [hfront, coded.decode] at decoded
        obtain ⟨others, rfl, left⟩ := text_of_push decoded
        cases front with
        | nil => exact absurd rfl coded.ne_nil
        | cons b' tail =>
          rw [List.cons_append] at hfront
          obtain ⟨rfl, rfl⟩ := List.cons.inj hfront
          obtain ⟨rest, rfl, later⟩ := content_continuations coded.tail behind
          have shorter := length_lt_behind b tail rest
          obtain ⟨raw, rfl, spells⟩ := ih rest.length shorter later left rfl
          exact ⟨(b :: tail) ++ raw, by simp, .cons (spelling_of_coded coded plain) spells⟩
      · rw [stuck] at decoded
        cases decoded
    · rw [Utf8.decode_utf8EncodeChar] at decoded
      obtain ⟨others, rfl, left⟩ := text_of_push decoded
      have shorter : rest.length < (front ++ rest).length := by
        have some' : 0 < front.length := by cases escape <;> simp
        rw [List.length_append]
        omega
      obtain ⟨raw, rfl, spells⟩ := ih rest.length shorter behind left rfl
      exact ⟨front ++ raw, by simp, .cons (.escape escape) spells⟩

theorem text_of_readString {s t : List UInt8} {text : String}
    (h : readString s = .ok (text, t)) :
    ∃ raw, s = raw ++ quote :: t ∧ SpellsText text.toList raw := by
  unfold readString at h
  cases read : content .plain s with
  | error stop =>
    rw [read] at h
    cases h
  | ok pair =>
    obtain ⟨bytes, rest⟩ := pair
    rw [read] at h
    dsimp only at h
    cases decoded : Utf8.decode bytes with
    | mk characters bad =>
      rw [decoded] at h
      cases bad with
      | cons b bad => cases h
      | nil =>
        cases h
        rw [String.toList_ofList]
        exact text_of_content read decoded

/-! ## Strings that are skipped -/

theorem skipString_quote (s : List UInt8) : skipString .plain (quote :: s) = .ok s := by
  rw [skipString, if_pos rfl]

theorem skipString_plain {b : UInt8} (h : Plain b) (s : List UInt8) :
    skipString .plain (b :: s) = skipString .plain s := by
  rw [skipString, if_neg h.notQuote, if_neg h.notBackslash, if_neg h.printable]

theorem skipString_short {b e : UInt8} (h : shortEscape? b = some e) (s : List UInt8) :
    skipString .plain (backslash :: b :: s) = skipString .plain s := by
  rw [skipString, if_neg (by decide), if_pos rfl, skipString, if_neg (ne_lowerU_of_short h), h]
  rfl

theorem skipString_unicode (s : List UInt8) :
    skipString .plain (backslash :: lowerU :: s) = skipString (.hex 0 true) s := by
  rw [skipString, if_neg (by decide), if_pos rfl, skipString, if_pos rfl]

theorem skipString_unit (a b c d : UInt8) (s : List UInt8) :
    skipString (.hex 0 true) (a :: b :: c :: d :: s) =
      if (unit? a b c d).isSome then skipString .plain s else .error (.before .badEscape s) := by
  have all : (unit? a b c d).isSome = ((((true && (hexDigit? a).isSome) && (hexDigit? b).isSome) &&
      (hexDigit? c).isSome) && (hexDigit? d).isSome) := by
    unfold unit?
    cases hexDigit? a <;> cases hexDigit? b <;> cases hexDigit? c <;> cases hexDigit? d <;> rfl
  rw [all]
  simp only [skipString, show (0 : Nat) < 3 by decide, show 0 + 1 < 3 by decide,
    show 0 + 1 + 1 < 3 by decide, show ¬0 + 1 + 1 + 1 < 3 by decide, if_true, if_false]

theorem skipString_token {raw : List UInt8} (h : Token raw) (s : List UInt8) :
    skipString .plain (raw ++ quote :: s) = .ok s := by
  induction h with
  | nil => exact skipString_quote s
  | byte plain h ih => exact (skipString_plain plain _).trans ih
  | short escape h ih => exact (skipString_short escape _).trans ih
  | unit digits h ih =>
    refine (skipString_unicode _).trans ((skipString_unit _ _ _ _ _).trans ?_)
    rw [digits]
    exact ih

/-- Behind a backslash an escape is skipped, or the string is refused. -/
theorem skipString_backslash {s t : List UInt8} (h : skipString .plain (backslash :: s) = .ok t) :
    ∃ front rest, s = front ++ rest ∧ skipString .plain rest = .ok t ∧
      ∀ raw, Token raw → Token (backslash :: (front ++ raw)) := by
  cases s with
  | nil => cases h
  | cons b rest =>
    by_cases unicode : b = lowerU
    · subst unicode
      rw [skipString_unicode] at h
      match rest with
      | [] => cases h
      | [_] => cases h
      | [_, _] => cases h
      | [_, _, _] => cases h
      | a :: b :: c :: d :: rest =>
        rw [skipString_unit] at h
        cases digits : unit? a b c d with
        | none =>
          rw [digits] at h
          cases h
        | some n =>
          rw [digits] at h
          exact ⟨[lowerU, a, b, c, d], rest, rfl, h, fun _ => .unit digits⟩
    · cases escape : shortEscape? b with
      | none =>
        rw [skipString, if_neg (by decide), if_pos rfl, skipString, if_neg unicode, escape] at h
        cases h
      | some e =>
        rw [skipString_short escape] at h
        exact ⟨[b], rest, rfl, h, fun _ => .short escape⟩

/-- Whatever is skipped as a string is one. -/
theorem token_of_skipString {s t : List UInt8} (h : skipString .plain s = .ok t) :
    ∃ raw, s = raw ++ quote :: t ∧ Token raw := by
  induction size : s.length using Nat.strongRecOn generalizing s with
  | _ n ih =>
    subst size
    cases s with
    | nil => cases h
    | cons b rest =>
      by_cases ends : b = quote
      · subst ends
        rw [skipString_quote] at h
        cases h
        exact ⟨[], rfl, .nil⟩
      by_cases escapes : b = backslash
      · subst escapes
        obtain ⟨front, rest, rfl, later, token⟩ := skipString_backslash h
        have shorter := length_lt_behind backslash front rest
        obtain ⟨raw, rfl, isToken⟩ := ih rest.length shorter later rfl
        exact ⟨backslash :: (front ++ raw), by simp, token raw isToken⟩
      by_cases control : b < space
      · rw [skipString, if_neg ends, if_neg escapes, if_pos control] at h
        cases h
      · have plain : Plain b := ⟨ends, escapes, control⟩
        rw [skipString_plain plain] at h
        obtain ⟨raw, rfl, token⟩ := ih rest.length (length_lt_behind b [] rest) h rfl
        exact ⟨_, rfl, .byte plain token⟩

/-! ## The text of a string -/

theorem Token.append {front rest : List UInt8} (h : Token front) (h' : Token rest) :
    Token (front ++ rest) := by
  induction h with
  | nil => exact h'
  | byte plain h ih => exact .byte plain ih
  | short escape h ih => exact .short escape ih
  | unit digits h ih => exact .unit digits ih

theorem token_of_plains {front : List UInt8} (h : ∀ b ∈ front, Plain b) : Token front := by
  induction front with
  | nil => exact .nil
  | cons b front ih =>
    exact .byte (h b List.mem_cons_self) (ih fun x hx => h x (List.mem_cons_of_mem _ hx))

theorem Spelling.token {c : Char} {front : List UInt8} (h : Spelling c front) : Token front := by
  cases h with
  | raw printable notQuote notBackslash =>
    exact token_of_plains (plain_of_raw printable notQuote notBackslash)
  | escape h =>
    cases h with
    | short escape => exact .short escape .nil
    | unit digits character => exact .unit digits .nil
    | pair first second isHigh isLow => exact .unit first (.unit second .nil)

theorem SpellsText.token {text : List Char} {raw : List UInt8} (h : SpellsText text raw) :
    Token raw := by
  induction h with
  | nil => exact .nil
  | cons first h ih => exact first.token.append ih

def tokenText? (raw : List UInt8) : Option String :=
  match readString (raw ++ [quote]) with
  | .ok (text, []) => some text
  | _ => none

theorem tokenText_eq_some {raw : List UInt8} {text : String} :
    tokenText? raw = some text ↔ SpellsText text.toList raw := by
  unfold tokenText?
  constructor
  · intro h
    split at h
    · rename_i text' read
      cases h
      obtain ⟨raw', same, spells⟩ := text_of_readString read
      rwa [List.append_cancel_right same]
    · cases h
  · intro spells
    have read := readString_text spells []
    rw [String.ofList_toList] at read
    rw [read]

theorem token_unique {raw raw' t t' : List UInt8} (h : Token raw) (h' : Token raw')
    (same : raw ++ quote :: t = raw' ++ quote :: t') : raw = raw' ∧ t = t' := by
  have rest := skipString_token h t
  rw [same, skipString_token h'] at rest
  cases rest
  exact ⟨List.append_cancel_right same, rfl⟩

theorem readString_eq_ok {raw : List UInt8} (h : Token raw) {text : String} {t u : List UInt8} :
    readString (raw ++ quote :: t) = .ok (text, u) ↔ SpellsText text.toList raw ∧ u = t := by
  constructor
  · intro read
    obtain ⟨raw', same, spells⟩ := text_of_readString read
    obtain ⟨rfl, rfl⟩ := token_unique h spells.token same
    exact ⟨spells, rfl⟩
  · rintro ⟨spells, rfl⟩
    have read := readString_text spells u
    rwa [String.ofList_toList] at read

/-- What a string is read as does not depend on what stands behind it. -/
theorem toOption_readString {raw : List UInt8} (h : Token raw) (t : List UInt8) :
    (readString (raw ++ quote :: t)).toOption = (tokenText? raw).map (·, t) := by
  cases result : readString (raw ++ quote :: t) with
  | ok pair =>
    obtain ⟨spells, hu⟩ := (readString_eq_ok h).1 result
    rw [tokenText_eq_some.2 spells]
    exact congrArg some (Prod.ext rfl hu)
  | error stop =>
    cases text : tokenText? raw with
    | none => rfl
    | some text =>
      rw [(readString_eq_ok h).2 ⟨tokenText_eq_some.1 text, rfl⟩] at result
      cases result

end DiveTable.Json
