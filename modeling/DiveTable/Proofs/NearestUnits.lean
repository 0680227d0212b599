import DiveTable.Number.Binary64

/-! # The units of a rounded number

A quotient is rounded to a multiple of a power of two: one unit below `2 ^ 53`, and above that the
unit of its fifty-third bit. What a rounded number is worth is that multiple, so it is off by half
of the power at most, nothing is lost that was a multiple already, and the bound of a quotient is
a bound of the number. -/
namespace DiveTable

theorem round_le {num den limit : Nat} (h : num < limit * den) : roundHalfEven num den ≤ limit := by
  have below : num / den < limit := Nat.div_lt_of_lt_mul (by rwa [Nat.mul_comm])
  have up := round_le_div_succ num den
  omega

theorem le_round {num den limit : Nat} (pos : 0 < den) (h : limit * den ≤ num) :
    limit ≤ roundHalfEven num den := by
  have above : limit ≤ num / den := (Nat.le_div_iff_mul_le pos).2 h
  exact Nat.le_trans above (div_le_round num den)

/-- A multiple that is less than half a step away is the one that is rounded to. -/
theorem round_eq_of_near {num den whole : Nat} (low : 2 * (whole * den) < 2 * num + den)
    (high : 2 * num < 2 * (whole * den) + den) : roundHalfEven num den = whole := by
  have pos : 0 < den := by omega
  obtain ⟨up, down⟩ := round_within_half num pos
  rw [Nat.add_mul, Nat.mul_assoc, Nat.one_mul] at up
  have notAbove : roundHalfEven num den < whole + 1 := by
    apply Nat.lt_of_mul_lt_mul_right (a := den)
    rw [Nat.add_mul]
    omega
  have notBelow : whole < roundHalfEven num den + 1 := by
    apply Nat.lt_of_mul_lt_mul_right (a := den)
    rw [Nat.add_mul]
    omega
  omega

namespace Binary64

theorem binade_pos : 0 < binade := twoTo_pos 52

theorem twoTo_53 : twoTo 53 = 2 * binade := Nat.mul_comm _ _

theorem unitsPerOne_pos : 0 < unitsPerOne := twoTo_pos 1074

theorem twoTo_add_1074 (k : Nat) : twoTo (k + 1074) = twoTo k * unitsPerOne := twoTo_add k 1074

theorem mul_unitsPerOne_lt {n k : Nat} (h : n < twoTo k) :
    n * unitsPerOne < twoTo (k + 1074) := by
  rw [twoTo_add_1074]
  exact Nat.mul_lt_mul_of_pos_right h unitsPerOne_pos

/-- A code whose exponent and fraction are known. The fraction may be a whole binade more, which
is the next exponent without one. -/
theorem units_of_code {x : Binary64} {shift fraction : Nat}
    (hcode : x.code = fraction + binade * shift) (small : fraction ≤ 2 * binade)
    (normal : shift = 0 ∨ binade ≤ fraction) : x.units = fraction * twoTo shift := by
  have pos := binade_pos
  unfold units spacing
  by_cases low : fraction < binade
  · obtain rfl : shift = 0 := normal.resolve_right (by omega)
    rw [if_pos (by omega), hcode]
    simp
  · by_cases carry : fraction = 2 * binade
    · have split : x.code / binade = shift + 2 ∧ x.code % binade = 0 := by
        rw [Nat.div_mod_unique pos, hcode, Nat.mul_add]
        omega
      have large : ¬x.code < binade := by omega
      rw [if_neg large, split.1, split.2, carry, show shift + 2 - 1 = shift + 1 by omega,
        twoTo_succ, Nat.add_zero, Nat.mul_comm 2 binade, Nat.mul_assoc, Nat.mul_comm 2]
    · have split : x.code / binade = shift + 1 ∧ x.code % binade = fraction - binade := by
        rw [Nat.div_mod_unique pos, hcode, Nat.mul_add]
        omega
      have large : ¬x.code < binade := by omega
      rw [if_neg large, split.1, split.2, Nat.add_sub_cancel, Nat.add_sub_cancel' (by omega)]

def shiftOf (num den : Nat) : Nat := (num / den).log2 - 52

/-- The multiple of `2 ^ shiftOf` that a quotient is rounded to. -/
def kept (num den : Nat) : Nat := roundHalfEven num (den * twoTo (shiftOf num den))

theorem codeOfRatio_eq (num den : Nat) :
    codeOfRatio num den = min infinityCode (shiftOf num den * binade + kept num den) := rfl

theorem lt_twoTo_shiftOf (num : Nat) {den : Nat} (pos : 0 < den) :
    num < twoTo 53 * (den * twoTo (shiftOf num den)) := by
  have bits : num / den < twoTo 53 * twoTo (shiftOf num den) := by
    rw [← twoTo_add]
    have enough : (num / den).log2 + 1 ≤ 53 + shiftOf num den := by
      unfold shiftOf
      omega
    exact Nat.lt_of_lt_of_le (lt_twoTo_log2_succ _) (twoTo_le enough)
  rw [Nat.div_lt_iff_lt_mul pos] at bits
  calc
    num < twoTo 53 * twoTo (shiftOf num den) * den := bits
    _ = twoTo 53 * (den * twoTo (shiftOf num den)) := by
      rw [Nat.mul_assoc, Nat.mul_comm (twoTo (shiftOf num den))]

theorem twoTo_shiftOf_le {num den : Nat} (pos : 0 < den) (h : shiftOf num den ≠ 0) :
    binade * (den * twoTo (shiftOf num den)) ≤ num := by
  have large : num / den ≠ 0 := by
    intro zero
    rw [shiftOf, zero] at h
    exact h rfl
  have bits : binade * twoTo (shiftOf num den) ≤ num / den := by
    have exponent : 52 + shiftOf num den = (num / den).log2 := by
      unfold shiftOf at h ⊢
      omega
    rw [binade, ← twoTo_add, exponent]
    exact twoTo_log2_le large
  rw [Nat.le_div_iff_mul_le pos] at bits
  calc
    binade * (den * twoTo (shiftOf num den)) = binade * twoTo (shiftOf num den) * den := by
      rw [Nat.mul_assoc, Nat.mul_comm (twoTo (shiftOf num den))]
    _ ≤ num := bits

theorem kept_le (num : Nat) {den : Nat} (pos : 0 < den) : kept num den ≤ 2 * binade := by
  rw [← twoTo_53]
  exact round_le (lt_twoTo_shiftOf num pos)

theorem binade_le_kept {num den : Nat} (pos : 0 < den) :
    shiftOf num den = 0 ∨ binade ≤ kept num den := by
  by_cases h : shiftOf num den = 0
  · exact .inl h
  · exact .inr (le_round (Nat.mul_pos pos (twoTo_pos _)) (twoTo_shiftOf_le pos h))

/-- A number that is not too large is worth the multiple that it was rounded to. -/
theorem units_ofRatio {s : Bool} {num den : Nat} (pos : 0 < den)
    (finite : (ofRatio s num den).isFinite = true) :
    (ofRatio s num den).units = kept num den * twoTo (shiftOf num den) := by
  have code : (ofRatio s num den).code = codeOfRatio num den := code_ofRatio s num den
  rw [isFinite, code, codeOfRatio_eq, decide_eq_true_eq] at finite
  refine units_of_code ?_ (kept_le num pos) (binade_le_kept pos)
  rw [code, codeOfRatio_eq, Nat.min_eq_right (by omega), Nat.mul_comm, Nat.add_comm]

theorem isFinite_ofRatio (s : Bool) {num den k : Nat} (pos : 0 < den) (h : num / den < twoTo k)
    (small : k ≤ 2097) : (ofRatio s num den).isFinite = true := by
  have code : (ofRatio s num den).code = codeOfRatio num den := code_ofRatio s num den
  rw [isFinite, code, codeOfRatio_eq, decide_eq_true_eq]
  have shift : shiftOf num den ≤ 2044 := by
    have bits : (num / den).log2 < 2097 :=
      log2_lt_of_lt_twoTo (Nat.lt_of_lt_of_le h (twoTo_le small)) (by decide)
    unfold shiftOf
    omega
  calc
    min infinityCode (shiftOf num den * binade + kept num den) ≤
        shiftOf num den * binade + kept num den := Nat.min_le_right _ _
    _ ≤ 2044 * binade + 2 * binade :=
      Nat.add_le_add (Nat.mul_le_mul_right binade shift) (kept_le num pos)
    _ = 2046 * binade := (Nat.add_mul 2044 2 binade).symm
    _ < infinityCode := Nat.mul_lt_mul_of_pos_right (by decide) binade_pos

/-- Rounding does not lift a quotient over a power of two. -/
theorem units_ofRatio_le {s : Bool} {num den k : Nat} (pos : 0 < den) (h : num / den < twoTo k)
    (low : 53 ≤ k) (small : k ≤ 2097) : (ofRatio s num den).units ≤ twoTo k := by
  rw [units_ofRatio pos (isFinite_ofRatio s pos h small)]
  have fraction := kept_le num pos
  have bits : (num / den).log2 < k := log2_lt_of_lt_twoTo h (by omega)
  have exponent : 53 + shiftOf num den ≤ k := by
    unfold shiftOf
    omega
  calc
    kept num den * twoTo (shiftOf num den) ≤ 2 * binade * twoTo (shiftOf num den) :=
      Nat.mul_le_mul_right _ fraction
    _ = twoTo (53 + shiftOf num den) := by rw [twoTo_add, twoTo_53]
    _ ≤ twoTo k := twoTo_le exponent

/-- The error of a rounded number, in halves of the power of two that it is a multiple of. -/
theorem units_ofRatio_near {s : Bool} {num den : Nat} (pos : 0 < den)
    (finite : (ofRatio s num den).isFinite = true) :
    2 * num ≤ 2 * ((ofRatio s num den).units * den) + den * twoTo (shiftOf num den) ∧
      2 * ((ofRatio s num den).units * den) ≤ 2 * num + den * twoTo (shiftOf num den) := by
  obtain ⟨up, down⟩ := round_within_half num (Nat.mul_pos pos (twoTo_pos (shiftOf num den)))
  have worth : (ofRatio s num den).units * den =
      kept num den * (den * twoTo (shiftOf num den)) := by
    rw [units_ofRatio pos finite, Nat.mul_assoc, Nat.mul_comm den]
  rw [worth]
  rw [Nat.add_mul, Nat.mul_assoc, Nat.one_mul] at up
  exact ⟨up, down⟩

end Binary64

end DiveTable
