import DiveTable.Proofs.NumberReading

/-! # Numbers that are skipped

A number is skipped where it is read: a literal is skipped to its end, and whatever is skipped as a
number is a literal. -/
namespace DiveTable.Json

open Ascii

theorem skipExponent_bytes (x : Exponent) {t : List UInt8} (h : Stops t) :
    skipExponent (x.signBytes ++ digitBytes (x.lead :: x.more) ++ t) = .ok t := by
  have digit : (digit? (digitByte x.lead)).isSome = true := by
    rw [digit_digitByte]
    rfl
  have skipped := skipDigits_bytes x.more h
  obtain ⟨upper, sign, lead, more⟩ := x
  cases sign with
  | none =>
    change skipExponent (digitByte lead :: (digitBytes more ++ t)) = _
    unfold skipExponent
    dsimp only
    rw [if_neg (not_or.2 (sign_digit lead))]
    dsimp only
    rw [if_pos digit, skipped]
  | some down =>
    cases down with
    | false =>
      change skipExponent (plus :: digitByte lead :: (digitBytes more ++ t)) = _
      unfold skipExponent
      dsimp only
      rw [if_pos (.inl rfl)]
      dsimp only
      rw [if_pos digit, skipped]
    | true =>
      change skipExponent (minus :: digitByte lead :: (digitBytes more ++ t)) = _
      unfold skipExponent
      dsimp only
      rw [if_pos (.inr rfl)]
      dsimp only
      rw [if_pos digit, skipped]

theorem bytes_of_skipExponent (upper : Bool) {s t : List UInt8} (h : skipExponent s = .ok t) :
    ∃ x : Exponent, x.upper = upper ∧ s = x.signBytes ++ digitBytes (x.lead :: x.more) ++ t := by
  have digits : ∀ b rest, (if (digit? b).isSome = true then Except.ok (skipDigits rest)
      else .error (.before .badNumber rest)) = Except.ok (ε := Stop) t →
      ∃ lead more, b :: rest = digitBytes (lead :: more) ++ t := by
    intro b rest h
    cases digit : digit? b with
    | none =>
      rw [digit] at h
      cases h
    | some v =>
      obtain ⟨lead, rfl, -⟩ := exists_digitByte digit
      obtain ⟨more, after, rfl, stops⟩ := exists_digits rest
      rw [digit, skipDigits_bytes more stops] at h
      cases h
      exact ⟨lead, more, rfl⟩
  cases s with
  | nil => cases h
  | cons b rest =>
    unfold skipExponent at h
    dsimp only at h
    by_cases sign : b = plus ∨ b = minus
    · rw [if_pos sign] at h
      cases rest with
      | nil => cases h
      | cons c rest =>
        obtain ⟨lead, more, hrest⟩ := digits c rest h
        rw [hrest]
        rcases sign with rfl | rfl
        · exact ⟨⟨upper, some false, lead, more⟩, rfl, rfl⟩
        · exact ⟨⟨upper, some true, lead, more⟩, rfl, rfl⟩
    · rw [if_neg sign] at h
      obtain ⟨lead, more, hrest⟩ := digits b rest h
      exact ⟨⟨upper, none, lead, more⟩, rfl, hrest⟩

def skipPart (s : List UInt8) : Except Stop (List UInt8) :=
  match s with
  | [] => .ok []
  | b :: rest => if isExponentLetter b then skipExponent rest else .ok (b :: rest)

theorem skipPart_bytes (part : Option Exponent) {t : List UInt8} (h : Ends t) :
    skipPart (exponentBytes part ++ t) = .ok t := by
  cases part with
  | none =>
    change skipPart t = .ok t
    cases t with
    | nil => rfl
    | cons b rest =>
      obtain ⟨-, -, letter⟩ := not_number_of_ends (h b rest rfl)
      rw [skipPart, letter]
      rfl
  | some x =>
    obtain ⟨letter, bytes, isLetter, -, -⟩ := exponentLetter x
    rw [exponentBytes, bytes, List.cons_append, skipPart, if_pos isLetter]
    exact skipExponent_bytes x h.stops

theorem bytes_of_skipPart {s t : List UInt8} (h : skipPart s = .ok t) :
    ∃ part, s = exponentBytes part ++ t := by
  cases s with
  | nil =>
    cases h
    exact ⟨none, rfl⟩
  | cons b rest =>
    unfold skipPart at h
    dsimp only at h
    by_cases letter : isExponentLetter b = true
    · rw [if_pos letter] at h
      exact exponentBytes_of_letter letter fun upper => bytes_of_skipExponent upper h
    · rw [if_neg letter] at h
      cases h
      exact ⟨none, rfl⟩

theorem skipFraction_cons {b : UInt8} (h : b ≠ point) (rest : List UInt8) :
    skipFraction (b :: rest) = skipPart (b :: rest) := by
  unfold skipFraction skipPart
  dsimp only
  rw [if_neg h]

theorem skipFraction_point (d : Fin 10) (rest : List UInt8) :
    skipFraction (point :: digitByte d :: rest) = skipPart (skipDigits rest) := by
  unfold skipFraction skipPart
  dsimp only
  rw [if_pos rfl, digit_digitByte]
  rfl

theorem skipFraction_bytes (fraction : Digits) (part : Option Exponent) {t : List UInt8}
    (h : Ends t) : skipFraction (fractionBytes fraction ++ (exponentBytes part ++ t)) = .ok t := by
  have behind := skipPart_bytes part h
  cases fraction with
  | nil =>
    change skipFraction (exponentBytes part ++ t) = _
    cases part with
    | none =>
      cases t with
      | nil => rfl
      | cons b rest =>
        obtain ⟨-, dot, -⟩ := not_number_of_ends (h b rest rfl)
        exact (skipFraction_cons dot rest).trans behind
    | some x =>
      obtain ⟨letter, bytes, -, -, dot⟩ := exponentLetter x
      rw [exponentBytes, bytes, List.cons_append] at behind ⊢
      exact (skipFraction_cons dot _).trans behind
  | cons d digits =>
    have digitsSkipped := skipDigits_bytes digits (stops_exponentBytes part h.stops)
    exact (skipFraction_point d _).trans ((congrArg skipPart digitsSkipped).trans behind)

theorem bytes_of_skipFraction {s t : List UInt8} (h : skipFraction s = .ok t) :
    ∃ fraction part, s = fractionBytes fraction ++ (exponentBytes part ++ t) := by
  cases s with
  | nil =>
    cases h
    exact ⟨[], none, rfl⟩
  | cons b rest =>
    by_cases dot : b = point
    · subst dot
      cases rest with
      | nil => cases h
      | cons c rest =>
        cases digit : digit? c with
        | none =>
          unfold skipFraction at h
          dsimp only at h
          rw [if_pos rfl, digit] at h
          cases h
        | some v =>
          obtain ⟨d, rfl, -⟩ := exists_digitByte digit
          obtain ⟨digits, after, rfl, stops⟩ := exists_digits rest
          rw [skipFraction_point, skipDigits_bytes digits stops] at h
          obtain ⟨part, rfl⟩ := bytes_of_skipPart h
          exact ⟨d :: digits, part, rfl⟩
    · rw [skipFraction_cons dot] at h
      obtain ⟨part, hpart⟩ := bytes_of_skipPart h
      exact ⟨[], part, hpart⟩

theorem skipUnsigned_zero {t : List UInt8} (h : Stops t) :
    skipUnsigned (digitByte 0 :: t) = skipFraction t := by
  unfold skipUnsigned
  dsimp only
  rw [show digit? (digitByte 0) = some 0 from rfl]
  cases t with
  | nil => rfl
  | cons c rest =>
    dsimp only
    rw [h c rest rfl]
    rfl

theorem skipUnsigned_lead {d : Fin 10} (h : d ≠ 0) (s : List UInt8) :
    skipUnsigned (digitByte d :: s) = skipFraction (skipDigits s) := by
  unfold skipUnsigned
  dsimp only
  rw [digit_digitByte]
  cases value : d.val with
  | zero => exact absurd (Fin.ext value) h
  | succ n => rfl

theorem skipUnsigned_bytes (l : Literal) {t : List UInt8} (h : Ends t) :
    skipUnsigned (l.magnitudeBytes ++ t) = .ok t := by
  have tail := skipFraction_bytes l.fraction l.exponent h
  have stops := stops_fractionBytes l.fraction (stops_exponentBytes l.exponent h.stops)
  rw [Literal.magnitudeBytes, List.append_assoc, List.append_assoc]
  by_cases zero : l.lead = 0
  · have alone : l.more = [] := l.noZeroInFront.resolve_right (by simpa using zero)
    rw [zero, alone]
    exact (skipUnsigned_zero stops).trans tail
  · have digitsSkipped := skipDigits_bytes l.more stops
    exact (skipUnsigned_lead zero _).trans ((congrArg skipFraction digitsSkipped).trans tail)

/-- Whatever is skipped as a number without its sign has the digits of a literal. -/
theorem bytes_of_skipUnsigned (negative : Bool) {s t : List UInt8} (h : skipUnsigned s = .ok t) :
    ∃ l : Literal, l.negative = negative ∧ s = l.magnitudeBytes ++ t := by
  cases s with
  | nil => cases h
  | cons b rest =>
    cases digit : digit? b with
    | none =>
      unfold skipUnsigned at h
      dsimp only at h
      rw [digit] at h
      cases h
    | some v =>
      obtain ⟨d, rfl, -⟩ := exists_digitByte digit
      by_cases zero : d = 0
      · subst zero
        have stops : Stops rest := by
          intro c after hc
          subst hc
          cases next : digit? c with
          | none => rfl
          | some _ =>
            unfold skipUnsigned at h
            dsimp only at h
            rw [show digit? (digitByte 0) = some 0 from rfl, next] at h
            cases h
        rw [skipUnsigned_zero stops] at h
        obtain ⟨fraction, part, rfl⟩ := bytes_of_skipFraction h
        refine ⟨⟨negative, 0, [], fraction, part, .inl rfl⟩, rfl, ?_⟩
        simp [Literal.magnitudeBytes, digitBytes]
      · obtain ⟨digits, after, rfl, stops⟩ := exists_digits rest
        rw [skipUnsigned_lead zero, skipDigits_bytes digits stops] at h
        obtain ⟨fraction, part, rfl⟩ := bytes_of_skipFraction h
        refine ⟨⟨negative, d, digits, fraction, part, .inr zero⟩, rfl, ?_⟩
        simp [Literal.magnitudeBytes, digitBytes]

end DiveTable.Json
