import DiveTable.Text.Utf8

/-! # Bytes and characters

Each character has one encoding, of one to four bytes, and the decoder takes exactly that off the
front of a text. So a byte string decodes as a whole just when it is the encoding of characters,
and these are what it decodes to. -/
namespace DiveTable.Utf8

theorem isContinuation_iff {b : UInt8} :
    isContinuation b = true ↔ 0x80 ≤ b.toNat ∧ b.toNat ≤ 0xBF := by
  simp [isContinuation, UInt8.le_iff_toNat_le]

theorem isPair_iff {a b : UInt8} :
    isPair a b = true ↔ 0xC2 ≤ a.toNat ∧ a.toNat ≤ 0xDF ∧ 0x80 ≤ b.toNat ∧ b.toNat ≤ 0xBF := by
  simp [isPair, isContinuation_iff, UInt8.le_iff_toNat_le, and_assoc]

theorem isTriple_iff {a b c : UInt8} :
    isTriple a b c = true ↔ 0xE0 ≤ a.toNat ∧ a.toNat ≤ 0xEF ∧
      0x80 ≤ b.toNat ∧ b.toNat ≤ 0xBF ∧ 0x80 ≤ c.toNat ∧ c.toNat ≤ 0xBF ∧
      (a.toNat = 0xE0 → 0xA0 ≤ b.toNat) ∧ (a.toNat = 0xED → b.toNat ≤ 0x9F) := by
  simp only [isTriple, Bool.and_eq_true, Bool.or_eq_true, isContinuation_iff, beq_iff_eq,
    bne_iff_ne, decide_eq_true_eq, UInt8.le_iff_toNat_le, ← UInt8.toNat_inj, ne_eq,
    UInt8.reduceToNat]
  omega

theorem isQuadruple_iff {a b c d : UInt8} :
    isQuadruple a b c d = true ↔ 0xF0 ≤ a.toNat ∧ a.toNat ≤ 0xF4 ∧
      0x80 ≤ b.toNat ∧ b.toNat ≤ 0xBF ∧ 0x80 ≤ c.toNat ∧ c.toNat ≤ 0xBF ∧
      0x80 ≤ d.toNat ∧ d.toNat ≤ 0xBF ∧
      (a.toNat = 0xF0 → 0x90 ≤ b.toNat) ∧ (a.toNat = 0xF4 → b.toNat ≤ 0x8F) := by
  simp only [isQuadruple, Bool.and_eq_true, Bool.or_eq_true, isContinuation_iff, beq_iff_eq,
    decide_eq_true_eq, UInt8.le_iff_toNat_le, ← UInt8.toNat_inj, UInt8.reduceToNat]
  omega

theorem decode_single {a : UInt8} (h : a.toNat < 0x80) (rest : List UInt8) :
    decode (a :: rest) = push (Char.ofNat a.toNat) (decode rest) := by
  have low : a < 0x80 := UInt8.lt_iff_toNat_lt.2 h
  rw [decode.eq_def]
  dsimp only
  rw [if_pos low]

theorem decode_pair {a b : UInt8} (h : isPair a b = true) (rest : List UInt8) :
    decode (a :: b :: rest) = push (pair a b) (decode rest) := by
  have bounds := isPair_iff.1 h
  have high : ¬a < 0x80 := fun low => by
    have := UInt8.lt_iff_toNat_lt.1 low
    have : (0x80 : UInt8).toNat = 128 := rfl
    omega
  rw [decode.eq_def]
  dsimp only
  rw [if_neg high, if_pos h]

theorem decode_triple {a b c : UInt8} (h : isTriple a b c = true) (rest : List UInt8) :
    decode (a :: b :: c :: rest) = push (triple a b c) (decode rest) := by
  have bounds := isTriple_iff.1 h
  have high : ¬a < 0x80 := fun low => by
    have := UInt8.lt_iff_toNat_lt.1 low
    have : (0x80 : UInt8).toNat = 128 := rfl
    omega
  have notPair : ¬isPair a b = true := fun pair => by
    have := isPair_iff.1 pair
    omega
  rw [decode.eq_def]
  dsimp only
  rw [if_neg high, if_neg notPair, if_pos h]

theorem decode_quadruple {a b c d : UInt8} (h : isQuadruple a b c d = true) (rest : List UInt8) :
    decode (a :: b :: c :: d :: rest) = push (quadruple a b c d) (decode rest) := by
  have bounds := isQuadruple_iff.1 h
  have high : ¬a < 0x80 := fun low => by
    have := UInt8.lt_iff_toNat_lt.1 low
    have : (0x80 : UInt8).toNat = 128 := rfl
    omega
  have notPair : ¬isPair a b = true := fun pair => by
    have := isPair_iff.1 pair
    omega
  have notTriple : ¬isTriple a b c = true := fun triple => by
    have := isTriple_iff.1 triple
    omega
  rw [decode.eq_def]
  dsimp only
  rw [if_neg high, if_neg notPair, if_neg notTriple, if_pos h]

theorem toNat_ofNat_of_valid {n : Nat} (h : n.isValidChar) : (Char.ofNat n).toNat = n := by
  rw [Char.ofNat, dif_pos h]
  rfl

theorem ofNat_eq {n : Nat} {c : Char} (h : n = c.toNat) : Char.ofNat n = c := by
  rw [h, Char.ofNat_toNat]

inductive Coded : Char → List UInt8 → Prop
  | one {a : UInt8} (h : a.toNat < 0x80) : Coded (Char.ofNat a.toNat) [a]
  | two {a b : UInt8} (h : isPair a b = true) : Coded (pair a b) [a, b]
  | three {a b c : UInt8} (h : isTriple a b c = true) : Coded (triple a b c) [a, b, c]
  | four {a b c d : UInt8} (h : isQuadruple a b c d = true) :
    Coded (quadruple a b c d) [a, b, c, d]

theorem Coded.decode {c : Char} {bytes : List UInt8} (h : Coded c bytes) (rest : List UInt8) :
    decode (bytes ++ rest) = push c (decode rest) := by
  cases h with
  | one h => exact decode_single h rest
  | two h => exact decode_pair h rest
  | three h => exact decode_triple h rest
  | four h => exact decode_quadruple h rest

theorem toNat_byte {n : Nat} (h : n < 256) : (UInt8.ofNat n).toNat = n := by
  rw [UInt8.toNat_ofNat']
  exact Nat.mod_eq_of_lt h

theorem utf8EncodeChar_eq {c : Char} {v : Nat} (h : c.toNat = v) :
    String.utf8EncodeChar c =
      if v ≤ 0x7F then [UInt8.ofNat v]
      else if v ≤ 0x7FF then [UInt8.ofNat (v / 64 % 0x20 + 0xC0), UInt8.ofNat (v % 0x40 + 0x80)]
      else if v ≤ 0xFFFF then
        [UInt8.ofNat (v / 4096 % 0x10 + 0xE0), UInt8.ofNat (v / 64 % 0x40 + 0x80),
          UInt8.ofNat (v % 0x40 + 0x80)]
      else
        [UInt8.ofNat (v / 262144 % 0x08 + 0xF0), UInt8.ofNat (v / 4096 % 0x40 + 0x80),
          UInt8.ofNat (v / 64 % 0x40 + 0x80), UInt8.ofNat (v % 0x40 + 0x80)] := by
  subst h
  rfl

section

variable {c : Char}

theorem coded_one (h : c.toNat ≤ 0x7F) : Coded c [UInt8.ofNat c.toNat] := by
  have byte : (UInt8.ofNat c.toNat).toNat = c.toNat := toNat_byte (by omega)
  have coded := @Coded.one (UInt8.ofNat c.toNat) (by omega)
  rw [byte, Char.ofNat_toNat] at coded
  exact coded

theorem coded_two {a b : UInt8} (low : 0x7F < c.toNat) (high : c.toNat ≤ 0x7FF)
    (first : a.toNat = c.toNat / 64 % 0x20 + 0xC0) (second : b.toNat = c.toNat % 0x40 + 0x80) :
    Coded c [a, b] := by
  have whole : isPair a b = true := by
    rw [isPair_iff, first, second]
    omega
  have same : pair a b = c := by
    rw [pair, first, second]
    exact ofNat_eq (by omega)
  exact same ▸ Coded.two whole

theorem coded_three {a b d : UInt8} (valid : c.toNat < 0xD800 ∨ 0xDFFF < c.toNat)
    (low : 0x7FF < c.toNat) (high : c.toNat ≤ 0xFFFF)
    (first : a.toNat = c.toNat / 4096 % 0x10 + 0xE0)
    (second : b.toNat = c.toNat / 64 % 0x40 + 0x80) (third : d.toNat = c.toNat % 0x40 + 0x80) :
    Coded c [a, b, d] := by
  have whole : isTriple a b d = true := by
    rw [isTriple_iff, first, second, third]
    omega
  have same : triple a b d = c := by
    rw [triple, first, second, third]
    exact ofNat_eq (by omega)
  exact same ▸ Coded.three whole

theorem coded_four {a b d e : UInt8} (low : 0xFFFF < c.toNat) (high : c.toNat < 0x110000)
    (first : a.toNat = c.toNat / 262144 % 0x08 + 0xF0)
    (second : b.toNat = c.toNat / 4096 % 0x40 + 0x80)
    (third : d.toNat = c.toNat / 64 % 0x40 + 0x80) (fourth : e.toNat = c.toNat % 0x40 + 0x80) :
    Coded c [a, b, d, e] := by
  have whole : isQuadruple a b d e = true := by
    rw [isQuadruple_iff, first, second, third, fourth]
    omega
  have same : quadruple a b d e = c := by
    rw [quadruple, first, second, third, fourth]
    exact ofNat_eq (by omega)
  exact same ▸ Coded.four whole

end

/-- The encoding of a character is its code. -/
theorem coded_utf8EncodeChar (c : Char) : Coded c (String.utf8EncodeChar c) := by
  have valid : c.toNat < 0xD800 ∨ 0xDFFF < c.toNat ∧ c.toNat < 0x110000 := c.valid
  rw [utf8EncodeChar_eq rfl]
  by_cases one : c.toNat ≤ 0x7F
  · rw [if_pos one]
    exact coded_one one
  rw [if_neg one]
  by_cases two : c.toNat ≤ 0x7FF
  · rw [if_pos two]
    exact coded_two (by omega) two (toNat_byte (by omega)) (toNat_byte (by omega))
  rw [if_neg two]
  by_cases three : c.toNat ≤ 0xFFFF
  · rw [if_pos three]
    exact coded_three (by omega) (by omega) three (toNat_byte (by omega)) (toNat_byte (by omega))
      (toNat_byte (by omega))
  · rw [if_neg three]
    exact coded_four (by omega) (by omega) (toNat_byte (by omega)) (toNat_byte (by omega))
      (toNat_byte (by omega)) (toNat_byte (by omega))

theorem toNat_pair {a b : UInt8} (h : isPair a b = true) :
    (pair a b).toNat = (a.toNat - 0xC0) * 0x40 + (b.toNat - 0x80) := by
  have bounds := isPair_iff.1 h
  exact toNat_ofNat_of_valid (.inl (by omega))

theorem toNat_triple {a b c : UInt8} (h : isTriple a b c = true) :
    (triple a b c).toNat =
      (a.toNat - 0xE0) * 0x1000 + (b.toNat - 0x80) * 0x40 + (c.toNat - 0x80) := by
  have bounds := isTriple_iff.1 h
  apply toNat_ofNat_of_valid
  change _ < 0xD800 ∨ 0xDFFF < _ ∧ _ < 0x110000
  omega

theorem toNat_quadruple {a b c d : UInt8} (h : isQuadruple a b c d = true) :
    (quadruple a b c d).toNat = (a.toNat - 0xF0) * 0x40000 + (b.toNat - 0x80) * 0x1000 +
      (c.toNat - 0x80) * 0x40 + (d.toNat - 0x80) := by
  have bounds := isQuadruple_iff.1 h
  apply toNat_ofNat_of_valid
  change _ < 0xD800 ∨ 0xDFFF < _ ∧ _ < 0x110000
  omega

/-- A character has no other code. -/
theorem Coded.bytes_eq {c : Char} {bytes : List UInt8} (h : Coded c bytes) :
    String.utf8EncodeChar c = bytes := by
  have byte {n : Nat} {b : UInt8} (h : n = b.toNat) : UInt8.ofNat n = b := by
    rw [h, UInt8.ofNat_toNat]
  cases h with
  | one h =>
    rename_i a
    have value : (Char.ofNat a.toNat).toNat = a.toNat := toNat_ofNat_of_valid (.inl (by omega))
    rw [utf8EncodeChar_eq value, if_pos (by omega), byte rfl]
  | two h =>
    rename_i a b
    have bounds := isPair_iff.1 h
    rw [utf8EncodeChar_eq (toNat_pair h), if_neg (by omega), if_pos (by omega)]
    rw [byte (b := a) (by omega), byte (b := b) (by omega)]
  | three h =>
    rename_i a b c
    have bounds := isTriple_iff.1 h
    rw [utf8EncodeChar_eq (toNat_triple h), if_neg (by omega), if_neg (by omega),
      if_pos (by omega)]
    rw [byte (b := a) (by omega), byte (b := b) (by omega), byte (b := c) (by omega)]
  | four h =>
    rename_i a b c d
    have bounds := isQuadruple_iff.1 h
    rw [utf8EncodeChar_eq (toNat_quadruple h), if_neg (by omega), if_neg (by omega),
      if_neg (by omega)]
    rw [byte (b := a) (by omega), byte (b := b) (by omega), byte (b := c) (by omega),
      byte (b := d) (by omega)]

theorem decode_utf8EncodeChar (c : Char) (rest : List UInt8) :
    decode (String.utf8EncodeChar c ++ rest) = push c (decode rest) :=
  (coded_utf8EncodeChar c).decode rest

/-- The characters of a text are found again in its bytes. -/
theorem decode_encode (text : List Char) : decode (encode text) = (text, []) := by
  induction text with
  | nil => rfl
  | cons c text ih =>
    have first : encode (c :: text) = String.utf8EncodeChar c ++ encode text := rfl
    rw [first, decode_utf8EncodeChar, ih]
    rfl

/-- Bytes begin with a character, or nothing of them is decoded. -/
theorem decode_step (bytes : List UInt8) :
    (∃ c front rest, Coded c front ∧ bytes = front ++ rest) ∨ decode bytes = ([], bytes) := by
  cases bytes with
  | nil => exact .inr rfl
  | cons a rest =>
    by_cases low : a < 0x80
    · have single : a.toNat < 0x80 := UInt8.lt_iff_toNat_lt.1 low
      exact .inl ⟨_, [a], rest, .one single, rfl⟩
    cases rest with
    | nil =>
      rw [decode.eq_def]
      dsimp only
      rw [if_neg low]
      exact .inr rfl
    | cons b rest =>
      by_cases two : isPair a b = true
      · exact .inl ⟨_, [a, b], rest, .two two, rfl⟩
      cases rest with
      | nil =>
        rw [decode.eq_def]
        dsimp only
        rw [if_neg low, if_neg two]
        exact .inr rfl
      | cons c rest =>
        by_cases three : isTriple a b c = true
        · exact .inl ⟨_, [a, b, c], rest, .three three, rfl⟩
        cases rest with
        | nil =>
          rw [decode.eq_def]
          dsimp only
          rw [if_neg low, if_neg two, if_neg three]
          exact .inr rfl
        | cons d rest =>
          by_cases four : isQuadruple a b c d = true
          · exact .inl ⟨_, [a, b, c, d], rest, .four four, rfl⟩
          rw [decode.eq_def]
          dsimp only
          rw [if_neg low, if_neg two, if_neg three, if_neg four]
          exact .inr rfl

theorem Coded.ne_nil {c : Char} {bytes : List UInt8} (h : Coded c bytes) : bytes ≠ [] := by
  cases h <;> exact List.cons_ne_nil _ _

/-- The first byte of a character continues no other character. -/
theorem Coded.head {c : Char} {b : UInt8} {bytes : List UInt8} (h : Coded c (b :: bytes)) :
    isContinuation b = false := by
  cases not : isContinuation b with
  | false => rfl
  | true =>
    have tail := isContinuation_iff.1 not
    cases h with
    | one h => omega
    | two h =>
      have := isPair_iff.1 h
      omega
    | three h =>
      have := isTriple_iff.1 h
      omega
    | four h =>
      have := isQuadruple_iff.1 h
      omega

/-- The bytes behind the first one of a character continue it. -/
theorem Coded.tail {c : Char} {b : UInt8} {tail : List UInt8} (h : Coded c (b :: tail)) :
    ∀ x ∈ tail, isContinuation x = true := by
  intro x hx
  rw [isContinuation_iff]
  cases h with
  | one h => cases hx
  | two h =>
    have := isPair_iff.1 h
    obtain rfl := List.mem_singleton.1 hx
    omega
  | three h =>
    have := isTriple_iff.1 h
    simp only [List.mem_cons, List.not_mem_nil, or_false] at hx
    rcases hx with rfl | rfl <;> omega
  | four h =>
    have := isQuadruple_iff.1 h
    simp only [List.mem_cons, List.not_mem_nil, or_false] at hx
    rcases hx with rfl | rfl | rfl <;> omega

/-- A character is one small byte, or beyond all of these. -/
theorem Coded.small_or_large {c : Char} {b : UInt8} {tail : List UInt8}
    (h : Coded c (b :: tail)) : (b.toNat < 0x80 ∧ c.toNat = b.toNat) ∨ 0x80 ≤ c.toNat := by
  cases h with
  | one h => exact .inl ⟨h, toNat_ofNat_of_valid (.inl (by omega))⟩
  | two h =>
    have := isPair_iff.1 h
    rw [toNat_pair h]
    exact .inr (by omega)
  | three h =>
    have := isTriple_iff.1 h
    rw [toNat_triple h]
    exact .inr (by omega)
  | four h =>
    have := isQuadruple_iff.1 h
    rw [toNat_quadruple h]
    exact .inr (by omega)

end DiveTable.Utf8
