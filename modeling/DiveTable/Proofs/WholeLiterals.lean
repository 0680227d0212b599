import DiveTable.Proofs.DecimalLiterals
import DiveTable.Proofs.FiniteNumbers
import DiveTable.Proofs.TypedReading

/-! # Literals of whole numbers

A literal is read as a whole number just when it is nothing but digits that fit into a word, and
then as the number of these digits: `Literal.number_eq_natural`. A point, an exponent or a sign
makes it another number, and so do more digits than a word has room for. -/
namespace DiveTable.Json

namespace Literal

structure Bare (l : Literal) : Prop where
  unsigned : l.negative = false
  whole : l.fraction = []
  unscaled : l.exponent = none

/-- The powers of ten that an exponent multiplies and divides by. -/
def scaling (exponent : Option Exponent) : Nat × Nat :=
  match exponent with
  | none => (1, 1)
  | some x => if x.down then (1, tenTo x.value) else (tenTo x.value, 1)

def numerator (l : Literal) : Int :=
  let magnitude : Int := (l.significand * (scaling l.exponent).1 : Nat)
  if l.negative then -magnitude else magnitude

def denominator (l : Literal) : Nat := tenTo l.fraction.length * (scaling l.exponent).2

theorem Bare.fraction {l : Literal} (h : l.Bare) :
    l.numerator = l.significand ∧ l.denominator = 1 := by
  unfold numerator denominator
  rw [h.unsigned, h.whole, h.unscaled]
  constructor
  · simp [scaling]
  · rfl

theorem scaling_pos (exponent : Option Exponent) : 0 < (scaling exponent).2 := by
  unfold scaling
  split
  · exact Nat.one_pos
  · split
    · exact tenTo_pos _
    · exact Nat.one_pos

theorem significand_of_whole {l : Literal} (whole : l.fraction = []) :
    l.significand = decimal 0 (l.lead :: l.more) := by
  rw [significand, whole, List.append_nil, decimal_cons, Nat.zero_mul, Nat.zero_add]

/-- Where no digits are left, all of them have gone into the number. -/
theorem fill_eq_nil {start n : Nat} {digits : Digits} (small : start < UInt64.size)
    (h : fill start digits = (n, [])) : n = decimal start digits ∧ n < UInt64.size := by
  induction digits generalizing start with
  | nil =>
    cases h
    exact ⟨rfl, small⟩
  | cons d digits ih =>
    rw [fill] at h
    by_cases fit : fits start d.val = true
    · rw [if_pos fit] at h
      rw [decimal_cons]
      exact ih (of_decide_eq_true fit) h
    · rw [if_neg fit] at h
      cases h

/-- A number with an exponent is none of the whole ones. -/
theorem withExponent_binary {negative : Bool} {significand : Nat} {scale : Int}
    {exponent : Option Exponent} {n : Number}
    (h : withExponent negative significand scale exponent = some n) : ∃ x, n = .binary x := by
  unfold withExponent at h
  split at h
  · obtain ⟨x, -, rfl⟩ := Option.map_eq_some_iff.1 h
    exact ⟨_, rfl⟩
  · split at h
    · obtain ⟨x, -, rfl⟩ := Option.map_eq_some_iff.1 h
      exact ⟨_, rfl⟩
    · split at h
      · cases h
      · exact ⟨_, (Option.some.inj h).symm⟩

theorem wholeNumber_eq_natural {negative : Bool} {n : Nat} {k : UInt64} (small : n < UInt64.size)
    (h : wholeNumber negative n = .natural k) : negative = false ∧ k.toNat = n := by
  cases negative with
  | false =>
    cases h
    exact ⟨rfl, UInt64.toNat_ofNat_of_lt small⟩
  | true =>
    unfold wholeNumber at h
    split at h
    · rename_i absurd
      cases absurd
    · split at h <;> cases h

theorem number_of_bare {l : Literal} (bare : l.Bare) (small : l.significand < UInt64.size) :
    l.number? = some (.natural (UInt64.ofNat l.significand)) := by
  have filled : fill 0 (l.lead :: l.more) = (l.significand, []) := by
    rw [significand_of_whole bare.whole] at small ⊢
    exact fill_of_lt small
  unfold number?
  dsimp only
  rw [filled, if_pos ⟨bare.whole, bare.unscaled, rfl⟩, bare.unsigned]
  rfl

theorem bare_of_number {l : Literal} {k : UInt64} (h : l.number? = some (.natural k)) :
    l.Bare ∧ l.significand = k.toNat := by
  unfold number? at h
  dsimp only at h
  split at h
  · rename_i parts
    obtain ⟨whole, unscaled, all⟩ := parts
    have zero : 0 < UInt64.size := by decide
    obtain ⟨value, small⟩ := fill_eq_nil zero (Prod.ext rfl all)
    obtain ⟨unsigned, same⟩ := wholeNumber_eq_natural small (Option.some.inj h)
    refine ⟨⟨unsigned, whole, unscaled⟩, ?_⟩
    rw [same, value, significand_of_whole whole]
  · obtain ⟨x, same⟩ := withExponent_binary h
    cases same

/-- A literal is read as a whole number just when it is made of the digits of that number. -/
theorem number_eq_natural {l : Literal} {k : UInt64} :
    l.number? = some (.natural k) ↔ l.Bare ∧ l.significand = k.toNat := by
  constructor
  · intro h
    exact bare_of_number h
  · rintro ⟨bare, same⟩
    rw [number_of_bare bare (same ▸ k.toNat_lt_size), same, UInt64.ofNat_toNat]

/-- A literal below a limit, as a field with that limit takes it. -/
theorem natural_eq_some {l : Literal} {limit n : Nat} (fits : limit ≤ UInt64.size) :
    l.number?.bind (Number.natural? limit) = some n ↔
      l.Bare ∧ l.significand < limit ∧ n = l.significand := by
  constructor
  · intro h
    obtain ⟨number, read, accepted⟩ := Option.bind_eq_some_iff.1 h
    cases number with
    | natural k =>
      obtain ⟨bare, same⟩ := number_eq_natural.1 read
      unfold Number.natural? at accepted
      dsimp only at accepted
      split at accepted
      · rename_i small
        cases accepted
        rw [same]
        exact ⟨bare, small, rfl⟩
      · cases accepted
    | negative | binary => cases accepted
  · rintro ⟨bare, small, rfl⟩
    have back : (UInt64.ofNat l.significand).toNat = l.significand :=
      UInt64.toNat_ofNat_of_lt (Nat.lt_of_lt_of_le small fits)
    rw [number_of_bare bare (Nat.lt_of_lt_of_le small fits), Option.bind_some, Number.natural?,
      back]
    exact if_pos small

end Literal

end DiveTable.Json
