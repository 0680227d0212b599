import DiveTable.Proofs.FieldValues
import DiveTable.Proofs.FiniteNumbers

/-! # Sound values

The grammar leaves it open how large a number is and what the escapes of a string stand for. A
value is sound if its numbers can be held and its strings and keys spell texts, at any depth. What
is read is sound, and a sound value is spelled in UTF-8 throughout. -/
namespace DiveTable.Json

open Ascii

inductive Expr.Sound : Expr → Prop
  | null : Sound .null
  | boolean (b : Bool) : Sound (.boolean b)
  | number {literal : Literal} {n : Number} (value : literal.number? = some n)
    (finite : n.IsFinite) : Sound (.number literal)
  | string {token : List UInt8} {text : List Char} (h : SpellsText text token) :
    Sound (.string token)
  | array {items : List Expr} (h : ∀ item ∈ items, Sound item) : Sound (.array items)
  | object {members : List (List UInt8 × Expr)} (keys : ∀ m ∈ members, ∃ name, Named name m)
    (values : ∀ m ∈ members, Sound m.2) : Sound (.object members)

/-! ## What is read is sound -/

def TakesSound {α : Type} (of? : Expr → Option α) : Prop := ∀ expr a, of? expr = some a → expr.Sound

section

variable {α β : Type} {of? : Expr → Option α}

theorem takesSound_map (h : TakesSound of?) (f : α → β) :
    TakesSound fun expr => (of? expr).map f := by
  intro expr b read
  obtain ⟨a, value, -⟩ := Option.map_eq_some_iff.1 read
  exact h expr a value

theorem optional_cases {expr : Expr} {a : Option α} (h : expr.optional? of? = some a) :
    expr = .null ∨ ∃ x, of? expr = some x := by
  cases expr with
  | null => exact .inl rfl
  | boolean | number | string | array | object =>
    obtain ⟨x, value, -⟩ := Option.map_eq_some_iff.1 h
    exact .inr ⟨x, value⟩

theorem takesSound_optional (h : TakesSound of?) : TakesSound (Expr.optional? of?) := by
  intro expr a read
  rcases optional_cases read with rfl | ⟨x, value⟩
  · exact .null
  · exact h expr x value

theorem finite_of_number {literal : Literal} {n : Number} (h : literal.number? = some n) :
    n.IsFinite := by
  have read := readNumber_bytes literal ends_nil
  rw [h] at read
  exact readNumber_finite _ n [] (eq_ok_of_toOption read)

theorem takesSound_numeric (accept? : Number → Option α) :
    TakesSound (Expr.numeric? accept?) := by
  intro expr a h
  cases expr with
  | number literal =>
    obtain ⟨n, value, -⟩ := Option.bind_eq_some_iff.1 h
    exact .number value (finite_of_number value)
  | null | boolean | string | array | object => cases h

theorem takesSound_text : TakesSound Expr.text? := by
  intro expr text h
  cases expr with
  | string token => exact .string (tokenText_eq_some.1 h)
  | null | boolean | number | array | object => cases h

end

/-- In a fold over members that succeeds, each member was put. -/
theorem exists_put {σ : Type} {put : σ → String → Expr → Option σ}
    {members : List (List UInt8 × Expr)} {state state' : σ}
    (h : members.foldlM (putMember put) state = some state') {m : List UInt8 × Expr}
    (mem : m ∈ members) :
    ∃ key before after, Named key m ∧ put before key m.2 = some after := by
  induction members generalizing state with
  | nil => cases mem
  | cons first members ih =>
    rw [List.foldlM_cons] at h
    obtain ⟨middle, done, later⟩ := Option.bind_eq_some_iff.1 h
    rcases List.mem_cons.1 mem with rfl | mem
    · obtain ⟨key, named, done⟩ := putMember_eq_some done
      exact ⟨key, state, middle, named, done⟩
    · exact ih later mem

section

variable {of? : Expr → Option Value} (inside : TakesSound of?)

include inside

theorem sound_of_items {items : List Expr} {values : List Value}
    (h : items.mapM of? = some values) : (Expr.array items).Sound := by
  refine .array fun item mem => ?_
  obtain ⟨i, place⟩ := List.getElem?_of_mem mem
  obtain ⟨v, value, -⟩ := mapM_getElem h place
  exact inside item v value

theorem sound_of_members {members : List (List UInt8 × Expr)} {kept : Members}
    (h : members.foldlM (putMember (keepMember of?)) [] = some kept) :
    (Expr.object members).Sound := by
  have put (m : List UInt8 × Expr) (mem : m ∈ members) : (∃ name, Named name m) ∧ m.2.Sound := by
    obtain ⟨key, before, after, named, done⟩ := exists_put h mem
    obtain ⟨v, value, -⟩ := Option.map_eq_some_iff.1 done
    exact ⟨⟨key, named⟩, inside m.2 v value⟩
  exact .object (fun m mem => (put m mem).1) fun m mem => (put m mem).2

end

/-- What a list or an object holds is read with less room than the whole. -/
theorem sound_of_inside {budget : Nat} {expr : Expr} {v : Value}
    (inside : ∀ lower, budget = lower + 1 → TakesSound (Expr.value? lower))
    (h : expr.value? budget = some v) : expr.Sound := by
  cases expr with
  | null => exact .null
  | boolean b => exact .boolean b
  | number literal =>
    rw [Expr.value?] at h
    obtain ⟨n, value, -⟩ := Option.map_eq_some_iff.1 h
    exact .number value (finite_of_number value)
  | string token =>
    rw [Expr.value?] at h
    obtain ⟨text, spells, -⟩ := Option.map_eq_some_iff.1 h
    exact .string (tokenText_eq_some.1 spells)
  | array items =>
    cases budget with
    | zero => cases h
    | succ budget =>
      obtain ⟨values, read, -⟩ := Option.map_eq_some_iff.1 h
      exact sound_of_items (inside budget rfl) read
  | object members =>
    cases budget with
    | zero => cases h
    | succ budget =>
      obtain ⟨kept, read, -⟩ := Option.map_eq_some_iff.1 h
      exact sound_of_members (inside budget rfl) read

theorem takesSound_value (budget : Nat) : TakesSound (Expr.value? budget) := by
  induction budget with
  | zero => exact fun _ _ => sound_of_inside nofun
  | succ budget ih =>
    intro expr v
    refine sound_of_inside ?_
    rintro lower ⟨⟩
    exact ih

theorem takesSound_values (budget : Nat) : TakesSound (Expr.values? budget) := by
  intro expr values h
  cases expr with
  | array items => exact sound_of_items (takesSound_value budget) h
  | null | boolean | number | string | object => cases h

/-! ## A sound value is spelled in UTF-8 -/

def IsText (bytes : List UInt8) : Prop := ∃ text, bytes = Utf8.encode text

theorem isText_nil : IsText [] := ⟨[], rfl⟩

theorem IsText.append {front rest : List UInt8} (h : IsText front) (h' : IsText rest) :
    IsText (front ++ rest) := by
  obtain ⟨text, rfl⟩ := h
  obtain ⟨text', rfl⟩ := h'
  exact ⟨text ++ text', (Utf8.encode_append text text').symm⟩

theorem IsText.cons {b : UInt8} (small : b.toNat < 0x80) {rest : List UInt8} (h : IsText rest) :
    IsText (b :: rest) := by
  obtain ⟨text, rfl⟩ := h
  refine ⟨Char.ofNat b.toNat :: text, ?_⟩
  show _ = String.utf8EncodeChar (Char.ofNat b.toNat) ++ Utf8.encode text
  rw [utf8EncodeChar_small small, UInt8.ofNat_toNat]
  rfl

theorem isText_of_small {bytes : List UInt8} (h : ∀ b ∈ bytes, b.toNat < 0x80) : IsText bytes := by
  induction bytes with
  | nil => exact isText_nil
  | cons b bytes ih =>
    exact .cons (h b List.mem_cons_self) (ih fun c mem => h c (List.mem_cons_of_mem b mem))

theorem isText_letters {letters : List UInt8}
    (h : letters.all (fun b => decide (b.toNat < 0x80)) = true) : IsText letters :=
  isText_of_small fun b mem => of_decide_eq_true (List.all_eq_true.1 h b mem)

theorem isSpace_small {b : UInt8} (h : isSpace b = true) : b.toNat < 0x80 := by
  simp only [isSpace, Bool.or_eq_true, beq_iff_eq] at h
  rcases h with ((rfl | rfl) | rfl) | rfl <;> decide

theorem digitByte_small (d : Fin 10) : (digitByte d).toNat < 0x80 := by
  revert d
  decide

theorem hexDigit_small {b : UInt8} {n : Nat} (h : hexDigit? b = some n) : b.toNat < 0x80 := by
  have limits : (0x39 : UInt8).toNat = 57 ∧ (0x46 : UInt8).toNat = 70 ∧
    (0x66 : UInt8).toNat = 102 := ⟨rfl, rfl, rfl⟩
  unfold hexDigit? at h
  repeat' split at h
  all_goals
    first
    | simp only [Bool.and_eq_true, decide_eq_true_eq, UInt8.le_iff_toNat_le] at *
      omega
    | cases h

theorem escaped_small {b e : UInt8} (h : shortEscape? b = some e) : b.toNat < 0x80 := by
  unfold shortEscape? at h
  repeat' split at h
  all_goals
    first
    | subst b
      decide
    | cases h

theorem unit_small {a b c d : UInt8} {n : Nat} (h : unit? a b c d = some n) :
    ∀ x ∈ [a, b, c, d], x.toNat < 0x80 := by
  unfold unit? at h
  split at h
  · rename_i first second third fourth
    simp [hexDigit_small first, hexDigit_small second, hexDigit_small third, hexDigit_small fourth]
  · cases h

theorem isText_escape {c : Char} {bytes : List UInt8} (h : Escape c bytes) : IsText bytes := by
  apply isText_of_small
  have backslash_small : backslash.toNat < 0x80 := by decide
  have lowerU_small : lowerU.toNat < 0x80 := by decide
  cases h with
  | short escape => simp [escaped_small escape, backslash_small]
  | unit digits character =>
    have := unit_small digits
    simp_all
  | pair first second isHigh isLow =>
    have := unit_small first
    have := unit_small second
    simp_all

theorem isText_token {text : List Char} {token : List UInt8} (h : SpellsText text token) :
    IsText token := by
  induction h with
  | nil => exact isText_nil
  | @cons c _ _ _ first _ ih =>
    refine IsText.append ?_ ih
    cases first with
    | raw => exact ⟨[c], by simp [Utf8.encode]⟩
    | escape h => exact isText_escape h

theorem isText_digits (digits : Digits) : IsText (digitBytes digits) := by
  apply isText_of_small
  intro b mem
  obtain ⟨d, -, rfl⟩ := List.mem_map.1 mem
  exact digitByte_small d

theorem isText_literal (literal : Literal) : IsText literal.bytes := by
  have fraction : IsText (fractionBytes literal.fraction) := by
    unfold fractionBytes
    split
    · exact isText_nil
    · exact .cons (by decide) (isText_digits _)
  have exponent : IsText (exponentBytes literal.exponent) := by
    unfold exponentBytes
    split
    · exact isText_nil
    · rename_i x _
      have sign : IsText x.signBytes := by
        unfold Exponent.signBytes
        split
        · exact isText_nil
        · exact .cons (by decide) isText_nil
        · exact .cons (by decide) isText_nil
      refine .cons ?_ (sign.append (isText_digits _))
      split <;> decide
  have magnitude : IsText literal.magnitudeBytes :=
    (isText_digits _).append (fraction.append exponent)
  unfold Literal.bytes
  split
  · exact .cons (by decide) magnitude
  · exact magnitude

theorem Behind.isText {s t : List UInt8} (h : Behind s t) (rest : IsText t) : IsText s := by
  obtain ⟨blank, spaces, rfl⟩ := h
  exact (isText_of_small fun b mem => isSpace_small (spaces b mem)).append rest

theorem Separated.isText {first : Bool} {s t : List UInt8} (h : Separated first s t)
    (rest : IsText t) : IsText s := by
  cases first with
  | true =>
    obtain rfl : s = t := h
    exact rest
  | false => exact Behind.isText h (.cons (by decide) rest)

theorem isText_quoted {text : List Char} {token t : List UInt8} (h : SpellsText text token)
    (rest : IsText t) : IsText (quote :: (token ++ quote :: t)) :=
  .cons (by decide) ((isText_token h).append (.cons (by decide) rest))

mutual

theorem Spells.isText {expr : Expr} {s t : List UInt8} :
    Spells expr s t → expr.Sound → IsText t → IsText s
  | .null h, _, rest => by
    have letters : IsText (lowerN :: nullLetters) := isText_letters rfl
    exact h.isText (letters.append rest)
  | .yes h, _, rest => by
    have letters : IsText (lowerT :: trueLetters) := isText_letters rfl
    exact h.isText (letters.append rest)
  | .no h, _, rest => by
    have letters : IsText (lowerF :: falseLetters) := isText_letters rfl
    exact h.isText (letters.append rest)
  | .number literal h, _, rest => h.isText ((isText_literal literal).append rest)
  | .string h _, .string spells, rest => h.isText (isText_quoted spells rest)
  | .array h inside, .array sound, rest => h.isText (.cons (by decide) (inside.isText sound rest))
  | .object h inside, .object keys values, rest =>
    h.isText (.cons (by decide) (inside.isText keys values rest))

theorem SpellsItems.isText {first : Bool} {items : List Expr} {s t : List UInt8} :
    SpellsItems first items s t → (∀ item ∈ items, item.Sound) → IsText t → IsText s
  | .nil h, _, rest => h.isText (.cons (by decide) rest)
  | .cons h head tail, sound, rest => by
    have behind := tail.isText (fun item mem => sound item (List.mem_cons_of_mem _ mem)) rest
    exact h.isText (head.isText (sound _ List.mem_cons_self) behind)

theorem SpellsMembers.isText {first : Bool} {members : List (List UInt8 × Expr)}
    {s t : List UInt8} : SpellsMembers first members s t →
      (∀ m ∈ members, ∃ name, Named name m) → (∀ m ∈ members, m.2.Sound) → IsText t → IsText s
  | .nil h, _, _, rest => h.isText (.cons (by decide) rest)
  | .cons h key _ middle head tail, keys, values, rest => by
    have behind := tail.isText (fun m mem => keys m (List.mem_cons_of_mem _ mem))
      (fun m mem => values m (List.mem_cons_of_mem _ mem)) rest
    have value := head.isText (values _ List.mem_cons_self) behind
    have afterKey := middle.isText (.cons (by decide) value)
    obtain ⟨name, named⟩ := keys _ List.mem_cons_self
    exact h.isText (key.isText (isText_quoted named afterKey))

end

/-- A text that spells a sound value is UTF-8. -/
theorem isText_of_spelled {expr : Expr} {text : List UInt8} (h : Spelled expr text)
    (sound : expr.Sound) : IsText text := by
  obtain ⟨t, spells, behind⟩ := h
  exact spells.isText sound (behind.isText isText_nil)

end DiveTable.Json
