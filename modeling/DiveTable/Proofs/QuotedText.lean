import DiveTable.Text.Quoted
import DiveTable.Text.Split

/-! # Texts that are read back from their quotation

Between double quotes a character stands for itself or is escaped, and every escape tells where it
ends. So what is quoted is the quotation of one text only, and a message that quotes a name names
it. -/
namespace DiveTable

def escapeLetters : List (Char × Char) :=
  [('\x00', '0'), ('\t', 't'), ('\n', 'n'), ('\r', 'r'), ('"', '"'), ('\\', '\\')]

inductive Stands : Char → List Char → Prop
  | plain {c : Char} (unquoted : c ≠ '"') (unescaped : c ≠ '\\')
      (printable : isUnprintable c = false) : Stands c [c]
  | letter {c letter : Char} (escape : (c, letter) ∈ escapeLetters) : Stands c ['\\', letter]
  | code {c : Char} (unprintable : isUnprintable c = true) :
      Stands c ('\\' :: 'u' :: '\x7b' :: (Nat.toDigits 16 c.toNat ++ ['\x7d']))

inductive StandFor : List Char → List Char → Prop
  | nil : StandFor [] []
  | cons {c : Char} {shown rest more : List Char} (first : Stands c shown)
      (others : StandFor rest more) : StandFor (c :: rest) (shown ++ more)

def Quotes (text shown : String) : Prop :=
  ∃ inner, StandFor text.toList inner ∧ shown.toList = '"' :: (inner ++ ['"'])

theorem stands_quotedChar (c : Char) : Stands c (quotedChar c) := by
  unfold quotedChar
  repeat' split
  case isTrue zero => exact .letter (by simp [escapeLetters, zero])
  case isTrue tab => exact .letter (by simp [escapeLetters, tab])
  case isTrue feed => exact .letter (by simp [escapeLetters, feed])
  case isTrue back => exact .letter (by simp [escapeLetters, back])
  case isTrue quote => exact .letter (by simp [escapeLetters, quote])
  case isTrue slash => exact .letter (by simp [escapeLetters, slash])
  case isTrue unprintable => exact .code unprintable
  case isFalse quote slash printable => exact .plain quote slash (by simpa using printable)

theorem standFor_quoted (chars : List Char) : StandFor chars (chars.flatMap quotedChar) := by
  induction chars with
  | nil => exact .nil
  | cons c rest ih => exact .cons (stands_quotedChar c) ih

theorem quotes_quoted (text : String) : Quotes text (quoted text) :=
  ⟨_, standFor_quoted text.toList, String.toList_ofList⟩

theorem digitChar_inj {a b : Nat} (ha : a < 16) (hb : b < 16)
    (h : Nat.digitChar a = Nat.digitChar b) : a = b := by
  have all : ∀ a < 16, ∀ b < 16, Nat.digitChar a = Nat.digitChar b → a = b := by decide
  exact all a ha b hb h

theorem hexDigits_inj {a b : Nat} (h : Nat.toDigits 16 a = Nat.toDigits 16 b) : a = b := by
  induction a using Nat.strongRecOn generalizing b with
  | ind a ih =>
    have several (n : Nat) (d : Char) : (Nat.toDigits 16 n ++ [d]).length ≠ 1 := by
      have some : 0 < (Nat.toDigits 16 n).length := Nat.length_toDigits_pos
      rw [List.length_append, List.length_singleton]
      omega
    rw [Nat.toDigits_eq_if (by decide), Nat.toDigits_eq_if (n := b) (by decide)] at h
    split at h
    · rename_i ha
      split at h
      · rename_i hb
        exact digitChar_inj ha hb (List.singleton_inj.1 h)
      · exact absurd (congrArg List.length h).symm (several _ _)
    · split at h
      · exact absurd (congrArg List.length h) (several _ _)
      · obtain ⟨front, last⟩ := List.append_inj' h rfl
        have quotients := ih (a / 16) (by omega) front
        have remainders := digitChar_inj (Nat.mod_lt a (by decide)) (Nat.mod_lt b (by decide))
          (List.singleton_inj.1 last)
        omega

theorem brace_not_mem_hexDigits (n : Nat) : '\x7d' ∉ Nat.toDigits 16 n := by
  induction n using Nat.strongRecOn with
  | ind n ih =>
    have digit (d : Nat) : '\x7d' ≠ Nat.digitChar d := (Nat.digitChar_ne _ (by decide)).symm
    rw [Nat.toDigits_eq_if (by decide)]
    split
    · simp [digit]
    · simp [digit, ih (n / 16) (by omega)]

theorem escapeLetters_inj {c other letter : Char} (h : (c, letter) ∈ escapeLetters)
    (h' : (other, letter) ∈ escapeLetters) : c = other := by
  have all : ∀ one ∈ escapeLetters, ∀ two ∈ escapeLetters, one.2 = two.2 → one.1 = two.1 := by
    decide
  exact all _ h _ h' rfl

theorem escape_not_code {c : Char} : (c, 'u') ∉ escapeLetters := by
  simp [escapeLetters]

/-- Whatever comes behind a character, it is read as the same. -/
theorem Stands.append_inj {a b : Char} {shown shown' rest rest' : List Char} (ha : Stands a shown)
    (hb : Stands b shown') (h : shown ++ rest = shown' ++ rest') : a = b ∧ rest = rest' := by
  cases ha with
  | plain _ unescaped _ =>
    cases hb with
    | plain => exact List.cons.inj h
    | letter | code => exact absurd (List.cons.inj h).1 unescaped
  | letter escape =>
    cases hb with
    | plain _ unescaped _ => exact absurd (List.cons.inj h).1.symm unescaped
    | letter escape' =>
      obtain ⟨rfl, behind⟩ := List.cons.inj (List.cons.inj h).2
      exact ⟨escapeLetters_inj escape escape', behind⟩
    | code =>
      obtain ⟨rfl, -⟩ := List.cons.inj (List.cons.inj h).2
      exact absurd escape escape_not_code
  | code _ =>
    cases hb with
    | plain _ unescaped _ => exact absurd (List.cons.inj h).1.symm unescaped
    | letter escape' =>
      obtain ⟨rfl, -⟩ := List.cons.inj (List.cons.inj h).2
      exact absurd escape' escape_not_code
    | code _ =>
      have digits : Nat.toDigits 16 a.toNat ++ '\x7d' :: rest =
          Nat.toDigits 16 b.toNat ++ '\x7d' :: rest' := by simpa using h
      have cuts := congrArg (cutAt '\x7d') digits
      rw [cutAt_append (brace_not_mem_hexDigits _), cutAt_append (brace_not_mem_hexDigits _)] at cuts
      obtain ⟨codes, ends⟩ := Prod.mk.inj cuts
      exact ⟨Char.toNat_inj.1 (hexDigits_inj codes), Option.some.inj ends⟩

/-- A quote ends the quotation: no character starts with one. -/
theorem Stands.head_ne {c : Char} {shown rest : List Char} (h : Stands c shown) :
    (shown ++ rest).head? ≠ some '"' := by
  cases h with
  | plain unquoted => simpa using unquoted
  | letter | code => simp

theorem StandFor.unique {text other inner inner' : List Char} (h : StandFor text inner)
    (h' : StandFor other inner') (same : inner ++ ['"'] = inner' ++ ['"']) : text = other := by
  induction h generalizing other inner' with
  | nil =>
    cases h' with
    | nil => rfl
    | cons first others =>
      rw [List.append_assoc] at same
      exact absurd (congrArg List.head? same).symm first.head_ne
  | cons first others ih =>
    cases h' with
    | nil =>
      rw [List.append_assoc] at same
      exact absurd (congrArg List.head? same) first.head_ne
    | cons first' others' =>
      rw [List.append_assoc, List.append_assoc] at same
      obtain ⟨rfl, behind⟩ := first.append_inj first' same
      rw [ih others' behind]

theorem Quotes.unique {text other shown : String} (h : Quotes text shown)
    (h' : Quotes other shown) : text = other := by
  obtain ⟨inner, stand, same⟩ := h
  obtain ⟨inner', stand', same'⟩ := h'
  have ends := (List.cons.inj (same.symm.trans same')).2
  exact String.toList_inj.1 (stand.unique stand' ends)

theorem Stands.of_plain {c : Char} {shown : List Char} (h : Stands c shown) (unquoted : c ≠ '"')
    (unescaped : c ≠ '\\') (printable : isUnprintable c = false) : shown = [c] := by
  cases h with
  | plain => rfl
  | letter escape =>
    have special : ∀ pair ∈ escapeLetters,
        pair.1 = '"' ∨ pair.1 = '\\' ∨ isUnprintable pair.1 = true := by
      decide +kernel
    rcases special _ escape with rfl | rfl | unprintable
    · exact absurd rfl unquoted
    · exact absurd rfl unescaped
    · cases printable.symm.trans unprintable
  | code unprintable => cases printable.symm.trans unprintable

/-- A text without quotes, backslashes and unprintable characters is quoted as it is. -/
theorem Quotes.of_plain {text shown : String} (h : Quotes text shown)
    (plain : ∀ c ∈ text.toList, c ≠ '"' ∧ c ≠ '\\' ∧ isUnprintable c = false) :
    shown = "\"" ++ text ++ "\"" := by
  have itself {chars inner : List Char} (stand : StandFor chars inner)
      (plain : ∀ c ∈ chars, c ≠ '"' ∧ c ≠ '\\' ∧ isUnprintable c = false) : inner = chars := by
    induction stand with
    | nil => rfl
    | cons first others ih =>
      obtain ⟨unquoted, unescaped, printable⟩ := plain _ List.mem_cons_self
      rw [first.of_plain unquoted unescaped printable,
        ih fun c mem => plain c (List.mem_cons_of_mem _ mem)]
      rfl
  obtain ⟨inner, stand, same⟩ := h
  apply String.toList_inj.1
  simp [same, itself stand plain]

end DiveTable
