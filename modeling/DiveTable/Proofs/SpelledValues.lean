import DiveTable.Proofs.Reading

/-! # What a value is read as

Numbers are rounded, strings are resolved, and the members of an object are put in the order of
their keys, the last of a key being kept. A value nested too deep is read as nothing. -/
namespace DiveTable.Json

open Ascii

def keepMember (value? : Expr → Option Value) (members : Members) (key : String) (expr : Expr) :
    Option Members :=
  (value? expr).map fun v => members.insert key v

/-- What a value is read as where `budget` more lists and objects may be open in one another. -/
def Expr.value? : Nat → Expr → Option Value
  | _, .null => some .null
  | _, .boolean b => some (.boolean b)
  | _, .number literal => literal.number?.map .number
  | _, .string token => (tokenText? token).map .string
  | 0, .array _ => none
  | 0, .object _ => none
  | budget + 1, .array items => (items.mapM (value? budget)).map .array
  | budget + 1, .object members =>
    (members.foldlM (putMember (keepMember (value? budget))) []).map .object

theorem keyword_eq_ok {letters s t : List UInt8} :
    keyword letters s = .ok t ↔ s = letters ++ t := by
  induction letters generalizing s with
  | nil => exact ⟨Except.ok.inj, congrArg Except.ok⟩
  | cons letter letters ih =>
    cases s with
    | nil => exact ⟨nofun, nofun⟩
    | cons b s =>
      unfold keyword
      by_cases same : b = letter
      · rw [if_pos same, ih, same]
        constructor
        · rintro rfl
          rfl
        · intro h
          exact (List.cons.inj h).2
      · rw [if_neg same]
        constructor
        · intro h
          cases h
        · intro h
          exact absurd (List.cons.inj h).1 same

theorem readKeyword_eq_ok {letters s t : List UInt8} {value v : Value}
    (h : readKeyword letters value s = .ok (v, t)) : s = letters ++ t := by
  obtain ⟨rest, found, same⟩ := map_eq_ok h
  cases same
  exact keyword_eq_ok.1 found

/-- Items are kept in the reverse of their order while they are read. -/
theorem foldlM_reverse {α : Type} (of? : Expr → Option α) (items : List Expr) (read : List α) :
    items.foldlM (fun values expr => (of? expr).map (· :: values)) read =
      (items.mapM of?).map fun values => values.reverse ++ read := by
  induction items generalizing read with
  | nil => rfl
  | cons expr items ih =>
    rw [List.foldlM_cons, List.mapM_cons]
    cases of? expr with
    | none => rfl
    | some v =>
      change items.foldlM _ (v :: read) = _
      rw [ih]
      change _ = ((items.mapM of?).bind fun values => some (v :: values)).map _
      cases items.mapM of? with
      | none => rfl
      | some values => simp

/-- A byte that begins a number begins nothing else. -/
theorem ne_of_startsNumber {b c : UInt8} (h : startsNumber b = true)
    (other : startsNumber c = false) : b ≠ c := by
  rintro rfl
  rw [h] at other
  cases other

def Begins (b : UInt8) : Prop :=
  startsNumber b = true ∨ b = lowerN ∨ b = lowerT ∨ b = lowerF ∨ b = quote ∨ b = openBracket ∨
    b = openBrace

section

variable {fuel budget : Nat}

theorem readValue_number {b : UInt8} (starts : startsNumber b = true) (rest : List UInt8) :
    readValue fuel budget (b :: rest) =
      (readNumber (b :: rest)).map fun pair => (.number pair.1, pair.2) := by
  have visible := (opening_of_startsNumber starts).visible
  unfold readValue
  rw [skipSpace_cons visible]
  dsimp only
  rw [if_neg (ne_of_startsNumber starts rfl), if_neg (ne_of_startsNumber starts rfl),
    if_neg (ne_of_startsNumber starts rfl), if_neg (ne_of_startsNumber starts rfl), if_pos starts]

theorem readValue_null (rest : List UInt8) :
    readValue fuel budget (lowerN :: rest) = readKeyword nullLetters .null rest := by
  cases budget <;> rfl

theorem readValue_true (rest : List UInt8) :
    readValue fuel budget (lowerT :: rest) = readKeyword trueLetters (.boolean true) rest := by
  cases budget <;> rfl

theorem readValue_false (rest : List UInt8) :
    readValue fuel budget (lowerF :: rest) = readKeyword falseLetters (.boolean false) rest := by
  cases budget <;> rfl

theorem readValue_string (rest : List UInt8) :
    readValue fuel budget (quote :: rest) =
      (readString rest).map fun pair => (.string pair.1, pair.2) := by
  cases budget <;> rfl

theorem bind_ok {α β : Type} (read : Read α) (f : α → β) :
    (Except.bind read fun pair => .ok (f pair.1, pair.2)) =
      read.map fun pair => (f pair.1, pair.2) := by
  cases read with
  | error stop => rfl
  | ok pair => rfl

/-- What stands inside a list is read with one less to open. -/
theorem readValue_list (rest : List UInt8) :
    readValue fuel (budget + 1) (openBracket :: rest) =
      Except.bind (foldItems (fun items s => (readValue fuel budget s).map fun pair =>
        (pair.1 :: items, pair.2)) fuel true [] rest) fun pair =>
          .ok (.array pair.1.reverse, pair.2) := by
  have items (items : List Value) (s : List UInt8) := bind_ok (readValue fuel budget s) (· :: items)
  simp only [← items]
  conv => lhs; unfold readValue
  rfl

theorem readValue_object (rest : List UInt8) :
    readValue fuel (budget + 1) (openBrace :: rest) =
      Except.bind (foldMembers (fun members key s => Except.bind (skipColon s) fun s =>
        (readValue fuel budget s).map fun pair =>
          (Members.insert key pair.1 members, pair.2)) fuel true [] rest) fun pair =>
            .ok (.object pair.1, pair.2) := by
  have members (members : Members) (key : String) (s : List UInt8) :=
    bind_ok (readValue fuel budget s) fun v => members.insert key v
  simp only [← members]
  conv => lhs; unfold readValue
  rfl

theorem readValue_behind {s t : List UInt8} (h : Behind s t) :
    readValue fuel budget s = readValue fuel budget t := by
  unfold readValue
  rw [h.skipSpace]

theorem reads_keepMember (inside : Reads Spells fuel (readValue fuel budget) (Expr.value? budget))
    (members : Members) (key : String) :
    Reads SpellsBehindKey fuel
      (fun s => Except.bind (skipColon s) fun s => (readValue fuel budget s).map fun pair =>
        (Members.insert key pair.1 members, pair.2))
      (keepMember (Expr.value? budget) members key) :=
  (inside.map fun v => Members.insert key v members).behindColon

theorem begins_of_readValue {s : List UInt8} {pair : Value × List UInt8}
    (h : readValue fuel budget s = .ok pair) : ∃ b rest, Behind s (b :: rest) ∧ Begins b := by
  unfold readValue at h
  cases hs : skipSpace s with
  | nil =>
    rw [hs] at h
    cases h
  | cons b rest =>
    refine ⟨b, rest, behind_of_skipSpace hs, ?_⟩
    rw [hs] at h
    apply Classical.byContradiction
    intro none
    simp only [Begins, not_or] at none
    obtain ⟨notNumber, notNull, notTrue, notFalse, notQuote, notBracket, notBrace⟩ := none
    dsimp only at h
    rw [if_neg notNull, if_neg notTrue, if_neg notFalse, if_neg notQuote, if_neg notNumber,
      if_neg notBracket, if_neg notBrace] at h
    cases h

end

section

variable {fuel budget : Nat}
  (inside : ∀ smaller, budget = smaller + 1 →
    Reads Spells fuel (readValue fuel smaller) (Expr.value? smaller))
include inside

theorem readValue_spelled {expr : Expr} {s t : List UInt8} (h : Spells expr s t) (ends : Ends t)
    (bounded : s.length ≤ fuel) :
    (readValue fuel budget s).toOption = (expr.value? budget).map (·, t) := by
  -- what a value is read as is told by what stands inside it, which `inside` has one level down
  cases h with
  | null h =>
    rw [readValue_behind h]
    cases budget <;> rfl
  | yes h =>
    rw [readValue_behind h]
    cases budget <;> rfl
  | no h =>
    rw [readValue_behind h]
    cases budget <;> rfl
  | number l h =>
    obtain ⟨b, rest, hb, starts⟩ := l.bytes_cons
    have number := readNumber_bytes l ends
    rw [readValue_behind h, hb, List.cons_append, readValue_number starts, toOption_map,
      ← List.cons_append, ← hb, number]
    unfold Expr.value?
    cases l.number? <;> rfl
  | @string _ _ token h isToken =>
    have string := toOption_readString isToken t
    rw [readValue_behind h]
    rw [readValue_string, toOption_map, string]
    unfold Expr.value?
    cases tokenText? token <;> rfl
  | @array _ u _ items h spelled =>
    have shorter := h.length_le
    have count := spelled.length_lt
    rw [List.length_cons] at shorter
    rw [readValue_behind h]
    cases budget with
    | zero => rfl
    | succ budget =>
      have enough : items.length < fuel := by omega
      have read := foldItems_spelled (fun values => (inside budget rfl).map (· :: values))
        spelled [] (by omega) enough
      rw [readValue_list, toOption_bind, read, foldlM_reverse, Expr.value?]
      cases items.mapM (Expr.value? budget) with
      | none => rfl
      | some values => simp [Except.toOption]
  | @object _ u _ members h spelled =>
    have shorter := h.length_le
    have count := spelled.length_lt
    rw [List.length_cons] at shorter
    rw [readValue_behind h]
    cases budget with
    | zero => rfl
    | succ budget =>
      have enough : members.length < fuel := by omega
      have read := foldMembers_spelled (reads_keepMember (inside budget rfl)) spelled []
        (by omega) enough
      rw [readValue_object, toOption_bind, read, Expr.value?]
      cases members.foldlM (putMember (keepMember (Expr.value? budget))) [] with
      | none => rfl
      | some members => rfl

theorem spells_of_readValue {s t : List UInt8} {v : Value}
    (h : readValue fuel budget s = .ok (v, t)) : ∃ expr, Spells expr s t := by
  -- the first byte tells what kind of value is read
  obtain ⟨b, rest, behind, begins⟩ := begins_of_readValue h
  rw [readValue_behind behind] at h
  rcases begins with starts | rfl | rfl | rfl | rfl | rfl | rfl
  · rw [readValue_number starts] at h
    obtain ⟨⟨n, u⟩, number, same⟩ := map_eq_ok h
    obtain ⟨l, hl⟩ := bytes_of_readNumber number
    cases same
    exact ⟨.number l, .number l (hl ▸ behind)⟩
  · rw [readValue_null] at h
    exact ⟨.null, .null (readKeyword_eq_ok h ▸ behind)⟩
  · rw [readValue_true] at h
    exact ⟨.boolean true, .yes (readKeyword_eq_ok h ▸ behind)⟩
  · rw [readValue_false] at h
    exact ⟨.boolean false, .no (readKeyword_eq_ok h ▸ behind)⟩
  · rw [readValue_string] at h
    obtain ⟨⟨text, u⟩, string, same⟩ := map_eq_ok h
    obtain ⟨token, rfl, spells⟩ := text_of_readString string
    cases same
    exact ⟨.string token, .string behind spells.token⟩
  · cases budget with
    | zero => cases h
    | succ budget =>
      rw [readValue_list] at h
      obtain ⟨⟨values, u⟩, read, same⟩ := bind_eq_ok h
      cases same
      obtain ⟨items, spelled⟩ :=
        items_of_foldItems (fun values => (inside budget rfl).map (· :: values)) read
      exact ⟨.array items, .array behind spelled⟩
  · cases budget with
    | zero => cases h
    | succ budget =>
      rw [readValue_object] at h
      obtain ⟨⟨kept, u⟩, read, same⟩ := bind_eq_ok h
      cases same
      obtain ⟨members, spelled⟩ :=
        members_of_foldMembers (reads_keepMember (inside budget rfl)) read
      exact ⟨.object members, .object behind spelled⟩

end

theorem reads_value (fuel budget : Nat) :
    Reads Spells fuel (readValue fuel budget) (Expr.value? budget) := by
  -- on how many lists and objects may be open in one another: inside a value it is one less
  induction budget with
  | zero =>
    have inside (smaller : Nat) (h : 0 = smaller + 1) :
        Reads Spells fuel (readValue fuel smaller) (Expr.value? smaller) := by cases h
    exact ⟨readValue_spelled inside, spells_of_readValue inside⟩
  | succ budget ih =>
    have inside (smaller : Nat) (h : budget + 1 = smaller + 1) :
        Reads Spells fuel (readValue fuel smaller) (Expr.value? smaller) := by
      cases h
      exact ih
    exact ⟨readValue_spelled inside, spells_of_readValue inside⟩

end DiveTable.Json
