import DiveTable.Json.Skip
import DiveTable.Proofs.SkippedNumber
import DiveTable.Proofs.StringToken

/-! # The grammar of values

A value as it is written, apart from white space, and the texts that spell it. A text is told with
what is left of it behind the value. Every reader takes a value off the front of a text just when
the text begins with a spelling, and what it reads depends on what is spelled alone. -/
namespace DiveTable.Json

open Ascii

/-- A value as it is written. Strings and keys are kept as they are spelled, members in order. -/
inductive Expr where
  | null
  | boolean (b : Bool)
  | number (literal : Literal)
  | string (token : List UInt8)
  | array (items : List Expr)
  | object (members : List (List UInt8 × Expr))

def Behind (s t : List UInt8) : Prop := ∃ blank, (∀ b ∈ blank, isSpace b = true) ∧ s = blank ++ t

def Separated (first : Bool) (s t : List UInt8) : Prop :=
  if first then s = t else Behind s (comma :: t)

mutual

/-- The text begins with a spelling of the value, and the second text is left. -/
inductive Spells : Expr → List UInt8 → List UInt8 → Prop
  | null {s t : List UInt8} (h : Behind s (lowerN :: (nullLetters ++ t))) : Spells .null s t
  | yes {s t : List UInt8} (h : Behind s (lowerT :: (trueLetters ++ t))) :
    Spells (.boolean true) s t
  | no {s t : List UInt8} (h : Behind s (lowerF :: (falseLetters ++ t))) :
    Spells (.boolean false) s t
  | number {s t : List UInt8} (literal : Literal) (h : Behind s (literal.bytes ++ t)) :
    Spells (.number literal) s t
  | string {s t token : List UInt8} (h : Behind s (quote :: (token ++ quote :: t)))
    (isToken : Token token) : Spells (.string token) s t
  | array {s u t : List UInt8} {items : List Expr} (h : Behind s (openBracket :: u))
    (inside : SpellsItems true items u t) : Spells (.array items) s t
  | object {s u t : List UInt8} {members : List (List UInt8 × Expr)}
    (h : Behind s (openBrace :: u)) (inside : SpellsMembers true members u t) :
    Spells (.object members) s t

/-- Items up to the closing bracket; the flag tells whether none stands in front of them. -/
inductive SpellsItems : Bool → List Expr → List UInt8 → List UInt8 → Prop
  | nil {first : Bool} {s t : List UInt8} (h : Behind s (closeBracket :: t)) :
    SpellsItems first [] s t
  | cons {first : Bool} {s u v t : List UInt8} {item : Expr} {items : List Expr}
    (h : Separated first s u) (head : Spells item u v) (tail : SpellsItems false items v t) :
    SpellsItems first (item :: items) s t

inductive SpellsMembers : Bool → List (List UInt8 × Expr) → List UInt8 → List UInt8 → Prop
  | nil {first : Bool} {s t : List UInt8} (h : Behind s (closeBrace :: t)) :
    SpellsMembers first [] s t
  | cons {first : Bool} {s u v w x t token : List UInt8} {value : Expr}
    {members : List (List UInt8 × Expr)} (h : Separated first s u)
    (key : Behind u (quote :: (token ++ quote :: v))) (isToken : Token token)
    (middle : Behind v (colon :: w)) (head : Spells value w x)
    (tail : SpellsMembers false members x t) :
    SpellsMembers first ((token, value) :: members) s t

end

/-- The whole text is one value with white space around it. -/
def Spelled (expr : Expr) (text : List UInt8) : Prop := ∃ t, Spells expr text t ∧ Behind t []

/-! ## White space -/

theorem behind_skipSpace (s : List UInt8) : Behind s (skipSpace s) := by
  refine ⟨s.takeWhile isSpace, ?_, (List.takeWhile_append_dropWhile).symm⟩
  exact List.all_eq_true.1 List.all_takeWhile

theorem Behind.refl (s : List UInt8) : Behind s s := ⟨[], by simp, rfl⟩

theorem Behind.skipSpace {s t : List UInt8} (h : Behind s t) : skipSpace s = skipSpace t := by
  obtain ⟨blank, spaces, rfl⟩ := h
  unfold Json.skipSpace
  rw [List.dropWhile_append_of_pos spaces]

theorem skipSpace_cons {b : UInt8} (h : isSpace b = false) (t : List UInt8) :
    skipSpace (b :: t) = b :: t := by
  unfold skipSpace
  exact List.dropWhile_cons_of_neg (by simp [h])

theorem Behind.skipSpace_eq {s t : List UInt8} {b : UInt8} (h : Behind s (b :: t))
    (visible : isSpace b = false) : Json.skipSpace s = b :: t :=
  h.skipSpace.trans (skipSpace_cons visible t)

theorem Behind.trans {s t u : List UInt8} (h : Behind s t) (h' : Behind t u) : Behind s u := by
  obtain ⟨blank, spaces, rfl⟩ := h
  obtain ⟨more, others, rfl⟩ := h'
  refine ⟨blank ++ more, ?_, by rw [List.append_assoc]⟩
  intro b hb
  exact (List.mem_append.1 hb).elim (spaces b) (others b)

theorem Behind.length_le {s t : List UInt8} (h : Behind s t) : t.length ≤ s.length := by
  obtain ⟨blank, -, rfl⟩ := h
  simp

theorem Separated.length_le {first : Bool} {s t : List UInt8} (h : Separated first s t) :
    t.length ≤ s.length := by
  unfold Separated at h
  cases first with
  | true => exact Nat.le_of_eq (congrArg List.length h).symm
  | false =>
    have := h.length_le
    simp only [List.length_cons] at this
    omega

mutual

theorem Spells.length_lt {expr : Expr} {s t : List UInt8} : Spells expr s t → t.length < s.length
  | .null h => by
    have := h.length_le
    simp only [List.length_cons, List.length_append] at this
    omega
  | .yes h => by
    have := h.length_le
    simp only [List.length_cons, List.length_append] at this
    omega
  | .no h => by
    have := h.length_le
    simp only [List.length_cons, List.length_append] at this
    omega
  | .number l h => by
    have := h.length_le
    have : 0 < l.bytes.length := by
      unfold Literal.bytes Literal.magnitudeBytes digitBytes
      split <;> simp
    simp only [List.length_append] at *
    omega
  | .string h _ => by
    have := h.length_le
    simp only [List.length_cons, List.length_append] at this
    omega
  | .array h inside => by
    have := h.length_le
    have := inside.length_lt
    simp only [List.length_cons] at *
    omega
  | .object h inside => by
    have := h.length_le
    have := inside.length_lt
    simp only [List.length_cons] at *
    omega

theorem SpellsItems.length_lt {first : Bool} {items : List Expr} {s t : List UInt8} :
    SpellsItems first items s t → t.length + items.length < s.length
  | .nil h => by
    have := h.length_le
    simp only [List.length_cons, List.length_nil] at *
    omega
  | .cons h head tail => by
    have := h.length_le
    have := head.length_lt
    have := tail.length_lt
    simp only [List.length_cons] at *
    omega

theorem SpellsMembers.length_lt {first : Bool} {members : List (List UInt8 × Expr)}
    {s t : List UInt8} : SpellsMembers first members s t → t.length + members.length < s.length
  | .nil h => by
    have := h.length_le
    simp only [List.length_cons, List.length_nil] at *
    omega
  | .cons h key _ middle head tail => by
    have := h.length_le
    have := key.length_le
    have := middle.length_le
    have := head.length_lt
    have := tail.length_lt
    simp only [List.length_cons, List.length_append] at *
    omega

end

/-! ## Where an entry begins -/

structure Opening (b : UInt8) : Prop where
  visible : isSpace b = false
  notBracket : b ≠ closeBracket
  notBrace : b ≠ closeBrace

theorem Literal.bytes_cons (l : Literal) :
    ∃ b rest, l.bytes = b :: rest ∧ startsNumber b = true := by
  unfold Literal.bytes
  cases l.negative with
  | true => exact ⟨minus, _, rfl, rfl⟩
  | false =>
    refine ⟨digitByte l.lead, _, rfl, ?_⟩
    rw [startsNumber, digit_digitByte]
    exact Bool.or_true _

theorem opening_digitByte (d : Fin 10) : Opening (digitByte d) := by
  have opens : ∀ d, isSpace (digitByte d) = false ∧ digitByte d ≠ closeBracket ∧
      digitByte d ≠ closeBrace := by decide
  exact ⟨(opens d).1, (opens d).2.1, (opens d).2.2⟩

theorem opening_of_startsNumber {b : UInt8} (h : startsNumber b = true) : Opening b := by
  rw [startsNumber, Bool.or_eq_true, beq_iff_eq] at h
  rcases h with rfl | digit
  · exact ⟨rfl, by decide, by decide⟩
  · obtain ⟨n, hn⟩ := Option.isSome_iff_exists.1 digit
    obtain ⟨d, rfl, -⟩ := exists_digitByte hn
    exact opening_digitByte d

theorem Spells.behind {expr : Expr} {s u t : List UInt8} (h : Behind s u) (head : Spells expr u t) :
    Spells expr s t := by
  cases head with
  | null h' => exact .null (h.trans h')
  | yes h' => exact .yes (h.trans h')
  | no h' => exact .no (h.trans h')
  | number l h' => exact .number l (h.trans h')
  | string h' isToken => exact .string (h.trans h') isToken
  | array h' inside => exact .array (h.trans h') inside
  | object h' inside => exact .object (h.trans h') inside

def Expr.Starts : Expr → UInt8 → Prop
  | .null, b => b = lowerN
  | .boolean true, b => b = lowerT
  | .boolean false, b => b = lowerF
  | .number _, b => startsNumber b = true
  | .string _, b => b = quote
  | .array _, b => b = openBracket
  | .object _, b => b = openBrace

theorem opening_of_starts {expr : Expr} {b : UInt8} (h : expr.Starts b) : Opening b := by
  cases expr with
  | number literal => exact opening_of_startsNumber h
  | boolean value => cases value <;> cases h <;> exact ⟨rfl, by decide, by decide⟩
  | null | string | array | object => cases h; exact ⟨rfl, by decide, by decide⟩

/-- White space in front of a value may be left out. -/
theorem Spells.opening {expr : Expr} {s t : List UInt8} (h : Spells expr s t) :
    ∃ b rest, skipSpace s = b :: rest ∧ expr.Starts b ∧ Spells expr (b :: rest) t := by
  cases h with
  | null h => exact ⟨_, _, h.skipSpace_eq rfl, rfl, .null (.refl _)⟩
  | yes h => exact ⟨_, _, h.skipSpace_eq rfl, rfl, .yes (.refl _)⟩
  | no h => exact ⟨_, _, h.skipSpace_eq rfl, rfl, .no (.refl _)⟩
  | number l h =>
    obtain ⟨b, rest, hb, starts⟩ := l.bytes_cons
    rw [hb] at h
    refine ⟨b, rest ++ t, h.skipSpace_eq (opening_of_startsNumber starts).visible, starts,
      .number l ?_⟩
    rw [hb]
    exact .refl _
  | string h isToken => exact ⟨_, _, h.skipSpace_eq rfl, rfl, .string (.refl _) isToken⟩
  | array h inside => exact ⟨_, _, h.skipSpace_eq rfl, rfl, .array (.refl _) inside⟩
  | object h inside => exact ⟨_, _, h.skipSpace_eq rfl, rfl, .object (.refl _) inside⟩

/-! ## What stands behind an entry -/

theorem Behind.ends {s t : List UInt8} (h : Behind s t) (ends : Ends t) : Ends s := by
  obtain ⟨blank, spaces, rfl⟩ := h
  cases blank with
  | nil => exact ends
  | cons b blank =>
    intro c rest hc
    cases hc
    exact .inl (spaces b List.mem_cons_self)

theorem ends_comma (s : List UInt8) : Ends (comma :: s) := by
  intro b rest h
  cases h
  exact .inr (.inl rfl)

theorem ends_closeBracket (s : List UInt8) : Ends (closeBracket :: s) := by
  intro b rest h
  cases h
  exact .inr (.inr (.inl rfl))

theorem ends_closeBrace (s : List UInt8) : Ends (closeBrace :: s) := by
  intro b rest h
  cases h
  exact .inr (.inr (.inr rfl))

theorem SpellsItems.ends {items : List Expr} {s t : List UInt8} (h : SpellsItems false items s t) :
    Ends s := by
  cases h with
  | nil h => exact h.ends (ends_closeBracket t)
  | cons h _ _ => exact Behind.ends h (ends_comma _)

theorem SpellsMembers.ends {members : List (List UInt8 × Expr)} {s t : List UInt8}
    (h : SpellsMembers false members s t) : Ends s := by
  cases h with
  | nil h => exact h.ends (ends_closeBrace t)
  | cons h _ _ _ _ _ => exact Behind.ends h (ends_comma _)

/-! ## The steps of a reader between entries -/

theorem behind_of_skipSpace {s t : List UInt8} (h : skipSpace s = t) : Behind s t :=
  h ▸ behind_skipSpace s

theorem nextItem_closed {s t : List UInt8} (h : Behind s (closeBracket :: t)) (first : Bool) :
    nextItem first s = .ok (.closed t) := by
  unfold nextItem
  rw [h.skipSpace_eq rfl]
  exact if_pos rfl

theorem nextItem_next {first : Bool} {s u : List UInt8} {b : UInt8} {rest : List UInt8}
    (h : Separated first s u) (begins : skipSpace u = b :: rest) (opening : Opening b) :
    nextItem first s = .ok (.next (b :: rest)) := by
  unfold nextItem
  cases first with
  | true =>
    have same : s = u := h
    simp only [same, begins]
    rw [if_neg opening.notBracket]
    rfl
  | false =>
    rw [Behind.skipSpace_eq h rfl]
    simp only [begins]
    rw [if_neg opening.notBracket]
    rfl

/-- Where an item is looked for, the list has ended or something stands behind its comma. -/
theorem nextItem_cases {first : Bool} {s : List UInt8} {entry : Entry}
    (h : nextItem first s = .ok entry) :
    (∃ t, entry = .closed t ∧ Behind s (closeBracket :: t)) ∨
      ∃ u v, entry = .next v ∧ Separated first s u ∧ Behind u v := by
  unfold nextItem at h
  split at h
  · cases h
  · rename_i b rest hs
    have behind := behind_of_skipSpace hs
    split at h
    · rename_i closing
      cases h
      exact .inl ⟨rest, rfl, closing ▸ behind⟩
    · split at h
      · rename_i isFirst
        cases h
        exact .inr ⟨s, _, rfl, isFirst ▸ rfl, behind⟩
      · rename_i later
        split at h
        · rename_i separator
          split at h
          · cases h
          · rename_i c more hc
            split at h
            · cases h
            · cases h
              refine .inr ⟨rest, _, rfl, ?_, behind_of_skipSpace hc⟩
              rw [Bool.not_eq_true] at later
              rw [separator] at behind
              rw [later]
              exact behind
        · cases h

theorem nextMember_closed {s t : List UInt8} (h : Behind s (closeBrace :: t)) (first : Bool) :
    nextMember first s = .ok (.closed t) := by
  unfold nextMember
  rw [h.skipSpace_eq rfl]
  exact if_pos rfl

theorem nextMember_next {first : Bool} {s u v : List UInt8} (h : Separated first s u)
    (key : Behind u (quote :: v)) : nextMember first s = .ok (.next v) := by
  unfold nextMember
  cases first with
  | true =>
    have same : s = u := h
    rw [same, key.skipSpace_eq rfl]
    rfl
  | false =>
    rw [Behind.skipSpace_eq h rfl]
    simp only [key.skipSpace_eq (rfl : isSpace quote = false)]
    rfl

theorem nextMember_cases {first : Bool} {s : List UInt8} {entry : Entry}
    (h : nextMember first s = .ok entry) :
    (∃ t, entry = .closed t ∧ Behind s (closeBrace :: t)) ∨
      ∃ u v, entry = .next v ∧ Separated first s u ∧ Behind u (quote :: v) := by
  unfold nextMember at h
  split at h
  · cases h
  · rename_i b rest hs
    have behind := behind_of_skipSpace hs
    split at h
    · rename_i closing
      cases h
      exact .inl ⟨rest, rfl, closing ▸ behind⟩
    · split at h
      · rename_i isFirst
        split at h
        · rename_i opens
          cases h
          exact .inr ⟨s, _, rfl, isFirst ▸ rfl, opens ▸ behind⟩
        · cases h
      · rename_i later
        split at h
        · rename_i separator
          split at h
          · cases h
          · rename_i c more hc
            split at h
            · rename_i opens
              cases h
              refine .inr ⟨rest, _, rfl, ?_, opens ▸ behind_of_skipSpace hc⟩
              rw [Bool.not_eq_true] at later
              rw [separator] at behind
              rw [later]
              exact behind
            · split at h
              · cases h
              · cases h
        · cases h

theorem skipColon_eq_ok {s t : List UInt8} : skipColon s = .ok t ↔ Behind s (colon :: t) := by
  unfold skipColon
  constructor
  · intro h
    split at h
    · cases h
    · rename_i b rest hs
      split at h
      · rename_i middle
        cases h
        exact middle ▸ behind_of_skipSpace hs
      · cases h
  · intro h
    rw [h.skipSpace_eq rfl]
    exact if_pos rfl

end DiveTable.Json
