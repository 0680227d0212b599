import DiveTable.Proofs.NearestUnits
import Mathlib.Tactic.Ring

/-! # Decimals in binary64

A whole number below `2 ^ 53` is kept as it is. Divided by a small power of ten it is off by less
than half a unit of its last decimal place, so with at least as many places the same decimal is
shown again. -/
namespace DiveTable

namespace Binary64

theorem shiftOf_le {num den k : Nat} (h : num / den < twoTo (53 + k)) : shiftOf num den ≤ k := by
  have bits := log2_lt_of_lt_twoTo h (by omega)
  unfold shiftOf
  omega

theorem isFinite_ofNat {n k : Nat} (h : n < twoTo k) (small : k ≤ 1023) :
    (ofNat n).isFinite = true := by
  have units : n * unitsPerOne / 1 < twoTo (k + 1074) := by
    rw [Nat.div_one]
    exact mul_unitsPerOne_lt h
  rw [ofNat]
  exact isFinite_ofRatio false Nat.one_pos units (by omega)

/-- A multiple of the power of two that it is rounded to is kept. -/
theorem kept_of_multiple {num whole : Nat} (h : num = whole * twoTo (shiftOf num 1)) :
    kept num 1 = whole := by
  rw [kept, Nat.one_mul]
  generalize shiftOf num 1 = shift at h ⊢
  rw [h]
  exact round_exact whole (twoTo_pos shift)

/-- Fifty-three bits are enough to keep a whole number as it is. -/
theorem units_ofNat {n : Nat} (h : n < twoTo 53) : (ofNat n).units = n * unitsPerOne := by
  have exponent : shiftOf (n * unitsPerOne) 1 ≤ 1074 := by
    have bits := mul_unitsPerOne_lt h
    rw [← Nat.div_one (n * unitsPerOne)] at bits
    exact shiftOf_le bits
  have whole : n * unitsPerOne =
      n * twoTo (1074 - shiftOf (n * unitsPerOne) 1) * twoTo (shiftOf (n * unitsPerOne) 1) := by
    rw [Nat.mul_assoc, ← twoTo_add, Nat.sub_add_cancel exponent]
    rfl
  rw [ofNat, units_ofRatio Nat.one_pos (isFinite_ofNat h (by decide)), kept_of_multiple whole,
    ← whole]

theorem units_tenPow {k : Nat} (h : k ≤ 15) : (tenPow k).units = tenTo k * unitsPerOne := by
  refine units_ofNat (Nat.lt_of_le_of_lt (tenTo_le h) ?_)
  decide

/-- What a quotient by a power of ten loses is less than a unit of the last place that is shown. -/
theorem tenTo_mul_shift_lt {n k places : Nat} (hk : k ≤ places) (hplaces : places ≤ 15)
    (small : n * tenTo (places - k) < binade) :
    tenTo places * twoTo (shiftOf (n * unitsPerOne * unitsPerOne) (tenTo k * unitsPerOne)) <
      unitsPerOne := by
  have one := unitsPerOne_pos
  have ten : tenTo places = tenTo k * tenTo (places - k) := by
    rw [← tenTo_add, Nat.add_sub_cancel' hk]
  generalize hshift : shiftOf (n * unitsPerOne * unitsPerOne) (tenTo k * unitsPerOne) = shift
  by_cases zero : shift = 0
  · rw [zero, twoTo_zero, Nat.mul_one]
    calc
      tenTo places ≤ tenTo 15 := tenTo_le hplaces
      _ < twoTo 50 := by decide
      _ < unitsPerOne := twoTo_lt (by decide)
  · have bits := twoTo_shiftOf_le (Nat.mul_pos (tenTo_pos k) one) (by rwa [hshift])
    rw [hshift] at bits
    have digits : binade * (tenTo k * twoTo shift) ≤ n * unitsPerOne := by
      apply Nat.le_of_mul_le_mul_right _ one
      calc
        binade * (tenTo k * twoTo shift) * unitsPerOne =
            binade * (tenTo k * unitsPerOne * twoTo shift) := by ring
        _ ≤ n * unitsPerOne * unitsPerOne := bits
    apply Nat.lt_of_mul_lt_mul_left (a := binade)
    calc
      binade * (tenTo places * twoTo shift) =
          binade * (tenTo k * twoTo shift) * tenTo (places - k) := by rw [ten]; ring
      _ ≤ n * unitsPerOne * tenTo (places - k) := Nat.mul_le_mul_right _ digits
      _ = n * tenTo (places - k) * unitsPerOne := by ring
      _ < binade * unitsPerOne := Nat.mul_lt_mul_of_pos_right small one

/-- A number of decimal places below `2 ^ 52` of them: divided into its own places and rounded to
more of them, it is what it was. -/
theorem parts_div_tenPow {n k places : Nat} (hk : k ≤ places) (hplaces : places ≤ 15)
    (small : n * tenTo (places - k) < binade) :
    (ofNat n / tenPow k).isFinite = true ∧
      (ofNat n / tenPow k).parts places = n * tenTo (places - k) := by
  have one := unitsPerOne_pos
  have pos : 0 < tenTo k * unitsPerOne := Nat.mul_pos (tenTo_pos k) one
  have ten : tenTo places = tenTo k * tenTo (places - k) := by
    rw [← tenTo_add, Nat.add_sub_cancel' hk]
  have below : n < twoTo 53 := by
    calc
      n ≤ n * tenTo (places - k) := Nat.le_mul_of_pos_right n (tenTo_pos _)
      _ < binade := small
      _ < twoTo 53 := twoTo_lt (by decide)
  have quotient : ofNat n / tenPow k =
      ofRatio false (n * unitsPerOne * unitsPerOne) (tenTo k * unitsPerOne) := by
    change ofRatio _ _ _ = _
    rw [units_ofNat below, units_tenPow (Nat.le_trans hk hplaces)]
    rfl
  have size : n * unitsPerOne * unitsPerOne / (tenTo k * unitsPerOne) < twoTo (53 + 1074) := by
    rw [Nat.mul_div_mul_right _ _ one]
    exact Nat.lt_of_le_of_lt (Nat.div_le_self _ _) (mul_unitsPerOne_lt below)
  have finite := isFinite_ofRatio false pos size (by decide)
  refine ⟨quotient ▸ finite, ?_⟩
  have error := tenTo_mul_shift_lt hk hplaces small
  obtain ⟨up, down⟩ := units_ofRatio_near pos finite
  rw [quotient, parts]
  revert error up down
  generalize (ofRatio false (n * unitsPerOne * unitsPerOne) (tenTo k * unitsPerOne)).units = units
  generalize shiftOf (n * unitsPerOne * unitsPerOne) (tenTo k * unitsPerOne) = shift
  intro error up down
  -- the bounds of the quotient, in parts of the last place
  have above : 2 * (n * tenTo (places - k) * unitsPerOne) ≤
      2 * (units * tenTo places) + tenTo places * twoTo shift := by
    apply Nat.le_of_mul_le_mul_right _ one
    calc
      2 * (n * tenTo (places - k) * unitsPerOne) * unitsPerOne =
          2 * (n * unitsPerOne * unitsPerOne) * tenTo (places - k) := by ring
      _ ≤ (2 * (units * (tenTo k * unitsPerOne)) + tenTo k * unitsPerOne * twoTo shift) *
          tenTo (places - k) := Nat.mul_le_mul_right _ up
      _ = (2 * (units * tenTo places) + tenTo places * twoTo shift) * unitsPerOne := by
        rw [ten]
        ring
  have behind : 2 * (units * tenTo places) ≤
      2 * (n * tenTo (places - k) * unitsPerOne) + tenTo places * twoTo shift := by
    apply Nat.le_of_mul_le_mul_right _ one
    calc
      2 * (units * tenTo places) * unitsPerOne =
          2 * (units * (tenTo k * unitsPerOne)) * tenTo (places - k) := by
        rw [ten]
        ring
      _ ≤ (2 * (n * unitsPerOne * unitsPerOne) + tenTo k * unitsPerOne * twoTo shift) *
          tenTo (places - k) := Nat.mul_le_mul_right _ down
      _ = (2 * (n * tenTo (places - k) * unitsPerOne) + tenTo places * twoTo shift) *
          unitsPerOne := by
        rw [ten]
        ring
  exact round_eq_of_near (by omega) (by omega)

/-- A whole number is shown with zeros behind the point. -/
theorem parts_ofNat {n : Nat} (h : n < twoTo 53) (places : Nat) :
    (ofNat n).parts places = n * tenTo places := by
  rw [parts, units_ofNat h, Nat.mul_right_comm]
  exact round_exact _ unitsPerOne_pos

end Binary64

end DiveTable
