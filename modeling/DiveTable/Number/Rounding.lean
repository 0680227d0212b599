/-! Powers of two and of ten, and quotients of natural numbers rounded to the nearest integer, a tie
to the even one. -/
namespace DiveTable

def twoTo (n : Nat) : Nat := Nat.pow 2 n

def tenTo (n : Nat) : Nat := Nat.pow 10 n

@[simp] theorem twoTo_zero : twoTo 0 = 1 := rfl

@[simp] theorem tenTo_zero : tenTo 0 = 1 := rfl

theorem twoTo_succ (n : Nat) : twoTo (n + 1) = twoTo n * 2 := rfl

theorem tenTo_succ (n : Nat) : tenTo (n + 1) = tenTo n * 10 := rfl

theorem twoTo_pos (n : Nat) : 0 < twoTo n := Nat.pow_pos (by decide)

theorem tenTo_pos (n : Nat) : 0 < tenTo n := Nat.pow_pos (by decide)

theorem twoTo_add (m n : Nat) : twoTo (m + n) = twoTo m * twoTo n := Nat.pow_add 2 m n

theorem tenTo_add (m n : Nat) : tenTo (m + n) = tenTo m * tenTo n := Nat.pow_add 10 m n

theorem twoTo_le {m n : Nat} (h : m ≤ n) : twoTo m ≤ twoTo n :=
  Nat.pow_le_pow_right (by decide) h

theorem tenTo_le {m n : Nat} (h : m ≤ n) : tenTo m ≤ tenTo n :=
  Nat.pow_le_pow_right (by decide) h

theorem twoTo_lt {m n : Nat} (h : m < n) : twoTo m < twoTo n :=
  Nat.pow_lt_pow_right (by decide) h

theorem twoTo_log2_le {n : Nat} (h : n ≠ 0) : twoTo n.log2 ≤ n := Nat.log2_self_le h

theorem lt_twoTo_log2_succ (n : Nat) : n < twoTo (n.log2 + 1) := Nat.lt_log2_self

theorem log2_lt_of_lt_twoTo {n k : Nat} (h : n < twoTo k) (pos : 0 < k) : n.log2 < k := by
  by_cases hn : n = 0
  · rw [hn]
    exact pos
  · exact (Nat.log2_lt hn).2 h

def roundHalfEven (num den : Nat) : Nat :=
  let quotient := num / den
  let excess := 2 * (num % den)
  if excess < den then quotient
  else if den < excess then quotient + 1
  else quotient + quotient % 2

theorem round_of_below {num den : Nat} (h : 2 * (num % den) < den) :
    roundHalfEven num den = num / den := by
  simp [roundHalfEven, h]

theorem round_of_above {num den : Nat} (h : den < 2 * (num % den)) :
    roundHalfEven num den = num / den + 1 := by
  simp [roundHalfEven, h, Nat.lt_asymm h]

theorem round_of_tie {num den : Nat} (h : 2 * (num % den) = den) :
    roundHalfEven num den = num / den + num / den % 2 := by
  simp [roundHalfEven, h]

theorem div_le_round (num den : Nat) : num / den ≤ roundHalfEven num den := by
  unfold roundHalfEven
  dsimp only
  split <;> (try split) <;> omega

theorem round_le_div_succ (num den : Nat) : roundHalfEven num den ≤ num / den + 1 := by
  unfold roundHalfEven
  dsimp only
  split <;> (try split) <;> omega

theorem even_round_of_tie {num den : Nat} (h : 2 * (num % den) = den) :
    roundHalfEven num den % 2 = 0 := by
  rw [round_of_tie h]
  omega

theorem round_within_half (num : Nat) {den : Nat} (h : 0 < den) :
    2 * num ≤ (2 * roundHalfEven num den + 1) * den ∧
      2 * (roundHalfEven num den * den) ≤ 2 * num + den := by
  have hdiv := Nat.div_add_mod num den
  have hlt := Nat.mod_lt num h
  rw [Nat.mul_comm] at hdiv
  rcases Nat.lt_trichotomy (2 * (num % den)) den with below | tie | above
  · rw [round_of_below below, Nat.add_mul, Nat.mul_assoc]
    omega
  · rw [round_of_tie tie]
    rcases Nat.mod_two_eq_zero_or_one (num / den) with even | odd
    · rw [even, Nat.add_mul, Nat.mul_assoc, Nat.add_mul]
      omega
    · rw [odd, Nat.add_mul, Nat.mul_assoc, Nat.add_mul]
      omega
  · rw [round_of_above above, Nat.add_mul, Nat.mul_assoc, Nat.add_mul]
    omega

@[simp] theorem round_exact (q : Nat) {den : Nat} (h : 0 < den) :
    roundHalfEven (q * den) den = q := by
  rw [round_of_below (by simp [h])]
  exact Nat.mul_div_cancel q h

end DiveTable
