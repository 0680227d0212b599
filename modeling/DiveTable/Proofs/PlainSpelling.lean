import DiveTable.Proofs.Grammar

/-! # The spelling without white space

Every value has a spelling, as long as its strings and keys may stand between quotes. -/
namespace DiveTable.Json

open Ascii

def separator (first : Bool) : List UInt8 := if first then [] else [comma]

mutual

def Expr.print : Expr → List UInt8 → List UInt8
  | .null, t => lowerN :: (nullLetters ++ t)
  | .boolean true, t => lowerT :: (trueLetters ++ t)
  | .boolean false, t => lowerF :: (falseLetters ++ t)
  | .number literal, t => literal.bytes ++ t
  | .string token, t => quote :: (token ++ quote :: t)
  | .array items, t => openBracket :: printItems true items t
  | .object members, t => openBrace :: printMembers true members t

def printItems : Bool → List Expr → List UInt8 → List UInt8
  | _, [], t => closeBracket :: t
  | first, item :: items, t => separator first ++ item.print (printItems false items t)

def printMembers : Bool → List (List UInt8 × Expr) → List UInt8 → List UInt8
  | _, [], t => closeBrace :: t
  | first, (key, value) :: members, t =>
    separator first ++
      quote :: (key ++ quote :: colon :: value.print (printMembers false members t))

end

theorem token_iff {raw : List UInt8} :
    Token raw ↔ (skipString .plain (raw ++ [quote])).toOption = some [] := by
  constructor
  · intro h
    rw [skipString_token h]
    rfl
  · intro h
    cases skipped : skipString .plain (raw ++ [quote]) with
    | error stop =>
      rw [skipped] at h
      cases h
    | ok rest =>
      rw [skipped] at h
      cases h
      obtain ⟨raw', same, isToken⟩ := token_of_skipString skipped
      rwa [List.append_cancel_right same]

instance (raw : List UInt8) : Decidable (Token raw) := decidable_of_iff' _ token_iff

mutual

def Expr.quotable : Expr → Bool
  | .string token => Token token
  | .array items => quotableItems items
  | .object members => quotableMembers members
  | _ => true

def quotableItems : List Expr → Bool
  | [] => true
  | item :: items => item.quotable && quotableItems items

def quotableMembers : List (List UInt8 × Expr) → Bool
  | [] => true
  | (key, value) :: members => decide (Token key) && value.quotable && quotableMembers members

end

theorem separated_separator (first : Bool) (s : List UInt8) :
    Separated first (separator first ++ s) s := by
  cases first with
  | true => rfl
  | false => exact .refl _

mutual

theorem spells_print (t : List UInt8) :
    ∀ expr : Expr, expr.quotable = true → Spells expr (expr.print t) t
  | .null, _ => .null (.refl _)
  | .boolean true, _ => .yes (.refl _)
  | .boolean false, _ => .no (.refl _)
  | .number literal, _ => .number literal (.refl _)
  | .string _, h => .string (.refl _) (of_decide_eq_true h)
  | .array items, h => .array (.refl _) (spells_printItems t true items h)
  | .object members, h => .object (.refl _) (spells_printMembers t true members h)

theorem spells_printItems (t : List UInt8) (first : Bool) :
    ∀ items : List Expr, quotableItems items = true →
      SpellsItems first items (printItems first items t) t
  | [], _ => .nil (.refl _)
  | item :: items, h => by
    obtain ⟨head, tail⟩ := (Bool.and_eq_true _ _).mp h
    exact .cons (separated_separator first _) (spells_print _ item head)
      (spells_printItems t false items tail)

theorem spells_printMembers (t : List UInt8) (first : Bool) :
    ∀ members : List (List UInt8 × Expr), quotableMembers members = true →
      SpellsMembers first members (printMembers first members t) t
  | [], _ => .nil (.refl _)
  | (_, value) :: members, h => by
    obtain ⟨front, tail⟩ := (Bool.and_eq_true _ _).mp h
    obtain ⟨key, head⟩ := (Bool.and_eq_true _ _).mp front
    exact .cons (separated_separator first _) (.refl _) (of_decide_eq_true key) (.refl _)
      (spells_print _ value head) (spells_printMembers t false members tail)

end

/-- A value is spelled with any white space around it. -/
theorem spelled_print {expr : Expr} (h : expr.quotable = true) {front rest : List UInt8}
    (blank : ∀ b ∈ front, isSpace b = true) (blank' : ∀ b ∈ rest, isSpace b = true) :
    Spelled expr (front ++ expr.print rest) := by
  refine ⟨rest, (spells_print rest expr h).behind ⟨front, blank, rfl⟩, rest, blank', ?_⟩
  rw [List.append_nil]

end DiveTable.Json
