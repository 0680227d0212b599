import DiveTable.Json.Typed
import DiveTable.Proofs.SpelledValues

/-! # Values of an expected type

A reader that expects a type refuses every value of another kind, and reads those of its kind as
any value is read. -/
namespace DiveTable.Json

open Ascii

def Expr.text? : Expr → Option String
  | .string token => tokenText? token
  | _ => none

def Expr.numeric? {α : Type} (accept? : Number → Option α) : Expr → Option α
  | .number literal => literal.number?.bind accept?
  | _ => none

def Number.natural? (limit : Nat) : Number → Option Nat
  | .natural n => if n.toNat < limit then some n.toNat else none
  | _ => none

def Expr.uint8? (expr : Expr) : Option UInt8 :=
  (expr.numeric? (Number.natural? UInt8.size)).map Nat.toUInt8

def Expr.uint16? (expr : Expr) : Option UInt16 :=
  (expr.numeric? (Number.natural? UInt16.size)).map Nat.toUInt16

def Expr.uint32? (expr : Expr) : Option UInt32 :=
  (expr.numeric? (Number.natural? UInt32.size)).map Nat.toUInt32

def Expr.binary64? : Expr → Option Binary64 := Expr.numeric? fun n => some n.toBinary64

def Expr.optional? {α : Type} (of? : Expr → Option α) : Expr → Option (Option α)
  | .null => some none
  | expr => (of? expr).map some

def Expr.values? (budget : Nat) : Expr → Option (List Value)
  | .array items => items.mapM (value? budget)
  | _ => none

section

variable {α : Type} {bound : Nat}

theorem reads_text (bound : Nat) : Reads Spells bound readText Expr.text? where
  of_spells := by
    intro expr s t spelled ends bounded
    obtain ⟨b, rest, begins, starts, spelled⟩ := spelled.opening
    unfold readText
    rw [begins]
    dsimp only
    by_cases isQuote : b = quote
    · rw [if_pos isQuote]
      subst isQuote
      cases expr with
      | string token =>
        cases spelled with
        | string h isToken =>
          cases h.skipSpace_eq rfl
          exact toOption_readString isToken t
      | boolean value => cases value <;> cases starts
      | null | number | array | object => cases starts
    · rw [if_neg isQuote]
      cases expr with
      | string token => exact absurd starts isQuote
      | null | boolean | number | array | object => rfl
  spells_of_ok := by
    intro s t text read
    unfold readText at read
    split at read
    · cases read
    · rename_i b rest begins
      split at read
      · rename_i isQuote
        obtain ⟨token, rfl, spells⟩ := text_of_readString read
        rw [isQuote] at begins
        exact ⟨.string token, .string (behind_of_skipSpace begins) spells.token⟩
      · cases read

/-- Without white space in front of it, a number is its bytes. -/
theorem bytes_of_spells {literal : Literal} {b : UInt8} {rest t : List UInt8}
    (visible : isSpace b = false) (h : Spells (.number literal) (b :: rest) t) :
    b :: rest = literal.bytes ++ t := by
  cases h with
  | number _ h =>
    obtain ⟨c, more, bytes, starts⟩ := literal.bytes_cons
    rw [bytes] at h ⊢
    have skipped := h.skipSpace_eq (opening_of_startsNumber starts).visible
    rwa [skipSpace_cons visible] at skipped

theorem readNumeric_bytes (expected : String) (accept : Number → Except Mismatch α)
    {b : UInt8} (starts : startsNumber b = true) (rest : List UInt8) :
    readNumeric expected accept (b :: rest) =
      Except.bind (readNumber (b :: rest)) fun pair =>
        ((accept pair.1).mapError fun m => .before (.mismatch m) pair.2).map (·, pair.2) := by
  unfold readNumeric
  rw [skipSpace_cons (opening_of_startsNumber starts).visible]
  dsimp only
  rw [if_pos starts]
  cases readNumber (b :: rest) with
  | error stop => rfl
  | ok pair =>
    obtain ⟨n, u⟩ := pair
    dsimp only [Except.bind]
    cases accept n <;> rfl

theorem readNumeric_behind {s t : List UInt8} (h : Behind s t) (expected : String)
    (accept : Number → Except Mismatch α) :
    readNumeric expected accept s = readNumeric expected accept t := by
  unfold readNumeric
  rw [h.skipSpace]

theorem reads_numeric (expected : String) {accept : Number → Except Mismatch α}
    {accept? : Number → Option α} (same : ∀ n, (accept n).toOption = accept? n) (bound : Nat) :
    Reads Spells bound (readNumeric expected accept) (Expr.numeric? accept?) where
  of_spells := by
    intro expr s t spelled ends bounded
    obtain ⟨b, rest, begins, starts, spelled⟩ := spelled.opening
    rw [readNumeric_behind (behind_of_skipSpace begins)]
    by_cases isNumber : startsNumber b = true
    · cases expr with
      | number literal =>
        have bytes := bytes_of_spells (opening_of_startsNumber isNumber).visible spelled
        rw [readNumeric_bytes expected accept isNumber, bytes, toOption_bind,
          readNumber_bytes literal ends, Expr.numeric?]
        cases literal.number? with
        | none => rfl
        | some n =>
          change (((accept n).mapError _).map _).toOption = (accept? n).map _
          rw [← same]
          cases accept n <;> rfl
      | boolean value => cases value <;> cases starts <;> cases isNumber
      | null | string | array | object => cases starts; cases isNumber
    · unfold readNumeric
      rw [skipSpace_cons (opening_of_starts starts).visible]
      dsimp only
      rw [if_neg isNumber]
      cases expr with
      | number literal => exact absurd starts isNumber
      | null | boolean | string | array | object => rfl
  spells_of_ok := by
    intro s t a read
    unfold readNumeric at read
    split at read
    · cases read
    · rename_i b rest begins
      split at read
      · split at read
        · cases read
        · rename_i n u number
          split at read
          · cases read
            obtain ⟨l, bytes⟩ := bytes_of_readNumber number
            rw [bytes] at begins
            exact ⟨.number l, .number l (behind_of_skipSpace begins)⟩
          · cases read
      · cases read

theorem reads_natural (expected : String) (limit bound : Nat) :
    Reads Spells bound (readNatural expected limit) (Expr.numeric? (Number.natural? limit)) := by
  refine reads_numeric expected ?_ bound
  intro n
  cases n with
  | natural n =>
    unfold Number.natural?
    dsimp only
    split <;> rfl
  | negative n => rfl
  | binary x => rfl

theorem reads_uint8 (bound : Nat) : Reads Spells bound readUInt8 Expr.uint8? :=
  (reads_natural "u8" UInt8.size bound).map Nat.toUInt8

theorem reads_uint16 (bound : Nat) : Reads Spells bound readUInt16 Expr.uint16? :=
  (reads_natural "u16" UInt16.size bound).map Nat.toUInt16

theorem reads_uint32 (bound : Nat) : Reads Spells bound readUInt32 Expr.uint32? :=
  (reads_natural "u32" UInt32.size bound).map Nat.toUInt32

theorem reads_binary64 (bound : Nat) : Reads Spells bound readBinary64 Expr.binary64? :=
  @reads_numeric _ "f64" (fun n => .ok n.toBinary64) _ (fun _ => rfl) bound

theorem reads_optional {read : List UInt8 → Read α} {of? : Expr → Option α}
    (h : Reads Spells bound read of?) :
    Reads Spells bound (readOptional read) (Expr.optional? of?) where
  of_spells := by
    intro expr s t spelled ends bounded
    have shorter := spelled.length_lt
    obtain ⟨b, rest, begins, starts, spelled⟩ := spelled.opening
    have visible := (behind_of_skipSpace begins).length_le
    unfold readOptional
    rw [begins]
    dsimp only
    by_cases isNull : b = lowerN
    · rw [if_pos isNull]
      subst isNull
      cases expr with
      | null =>
        cases spelled with
        | null h =>
          cases h.skipSpace_eq rfl
          rfl
      | boolean value => cases value <;> cases starts
      | number | string | array | object => cases starts
    · rw [if_neg isNull]
      have value := (h.map some).of_spells spelled ends (by omega)
      refine Eq.trans value ?_
      cases expr with
      | null => exact absurd starts isNull
      | boolean | number | string | array | object => rfl
  spells_of_ok := by
    intro s t a read
    unfold readOptional at read
    dsimp only at read
    split at read
    · rename_i begins
      obtain ⟨expr, spelled⟩ := (h.map some).spells_of_ok read
      exact ⟨expr, spelled.behind (behind_of_skipSpace begins)⟩
    · rename_i b rest begins
      split at read
      · rename_i isNull
        obtain ⟨u, found, same⟩ := map_eq_ok read
        cases same
        rw [isNull, keyword_eq_ok.1 found] at begins
        exact ⟨.null, .null (behind_of_skipSpace begins)⟩
      · obtain ⟨expr, spelled⟩ := (h.map some).spells_of_ok read
        exact ⟨expr, spelled.behind (behind_of_skipSpace begins)⟩

theorem reads_values (fuel budget : Nat) :
    Reads Spells fuel (readValues fuel budget) (Expr.values? budget) where
  of_spells := by
    intro expr s t spelled ends bounded
    obtain ⟨b, rest, begins, starts, spelled⟩ := spelled.opening
    have visible := (behind_of_skipSpace begins).length_le
    rw [List.length_cons] at visible
    unfold readValues
    rw [begins]
    dsimp only
    by_cases isList : b = openBracket
    · rw [if_pos isList]
      subst isList
      cases expr with
      | array items =>
        cases spelled with
        | array h inside =>
          cases h.skipSpace_eq rfl
          have count := inside.length_lt
          have enough : items.length < fuel := by omega
          have read := foldItems_spelled (fun values => (reads_value fuel budget).map (· :: values))
            inside [] (by omega) enough
          rw [toOption_map, read, foldlM_reverse]
          change _ = (items.mapM (Expr.value? budget)).map _
          cases items.mapM (Expr.value? budget) with
          | none => rfl
          | some values => simp
      | boolean value => cases value <;> cases starts
      | null | number | string | object => cases starts
    · rw [if_neg isList]
      cases expr with
      | array items => exact absurd starts isList
      | null | boolean | number | string | object => rfl
  spells_of_ok := by
    intro s t values read
    unfold readValues at read
    split at read
    · cases read
    · rename_i b rest begins
      split at read
      · rename_i isList
        obtain ⟨⟨items, u⟩, read, same⟩ := map_eq_ok read
        cases same
        obtain ⟨exprs, spelled⟩ :=
          items_of_foldItems (fun values => (reads_value fuel budget).map (· :: values)) read
        rw [isList] at begins
        exact ⟨.array exprs, .array (behind_of_skipSpace begins) spelled⟩
      · cases read

end

end DiveTable.Json
