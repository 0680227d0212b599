import DiveTable.Proofs.NumberLiteral

/-! # Numbers that are read

Main statements: in front of what cannot belong to a number, a literal is read as the number that it
stands for, `readNumber_bytes`; and whatever is read as a number is a literal,
`bytes_of_readNumber`. Each part of a literal is read by itself, with what is taken so far as its
start. -/
namespace DiveTable.Json

open Ascii

section

variable (negative : Bool)

theorem excessDigits_bytes (significand : Nat) (exponent : Int) (digits : Digits)
    (t : List UInt8) :
    excessDigits negative significand exponent (digitBytes digits ++ t) =
      excessDigits negative significand (exponent + digits.length) t := by
  induction digits generalizing exponent with
  | nil =>
    rw [List.length_nil, Int.natCast_zero, Int.add_zero]
    rfl
  | cons d digits ih =>
    have one : exponent + 1 + (digits.length : Int) = exponent + ((d :: digits).length : Int) := by
      rw [List.length_cons]
      omega
    rw [← one, ← ih]
    change excessDigits negative significand exponent (digitByte d :: (digitBytes digits ++ t)) = _
    rw [excessDigits, digit_digitByte]

theorem wholeDigits_of_stops (significand : Nat) {t : List UInt8} (h : Stops t) :
    wholeDigits negative significand t = afterWhole negative significand t := by
  cases t with
  | nil => rfl
  | cons b rest => rw [wholeDigits, h b rest rfl]

theorem wholeDigits_bytes (significand : Nat) (digits : Digits) {t : List UInt8} (h : Stops t) :
    wholeDigits negative significand (digitBytes digits ++ t) =
      if (fill significand digits).2 = [] then
        afterWhole negative (fill significand digits).1 t
      else
        excessDigits negative (fill significand digits).1 (fill significand digits).2.length t := by
  induction digits generalizing significand with
  | nil => exact wholeDigits_of_stops negative significand h
  | cons d digits ih =>
    change wholeDigits negative significand (digitByte d :: (digitBytes digits ++ t)) = _
    rw [wholeDigits, digit_digitByte, fill]
    dsimp only
    by_cases room : fits significand d.val = true
    · rw [if_pos room, if_pos room]
      exact ih _
    · rw [if_neg room, if_neg room, if_neg (List.cons_ne_nil d digits),
        excessDigits_bytes negative significand 1 digits t, List.length_cons, Int.natCast_add,
        Int.add_comm]
      rfl

theorem afterFraction_of_stops {significand : Nat} {exponent : Int} {t : List UInt8}
    (h : Stops t) :
    fractionDigits negative significand exponent true t =
      afterFraction negative significand exponent t := by
  cases t with
  | nil => rfl
  | cons b rest =>
    rw [fractionDigits, h b rest rfl]
    rfl

theorem fractionDigits_bytes (significand : Nat) (exponent : Int) (started : Bool)
    (digits : Digits) (some' : started = true ∨ digits ≠ []) {t : List UInt8} (h : Stops t) :
    fractionDigits negative significand exponent started (digitBytes digits ++ t) =
      afterFraction negative (fill significand digits).1
        (exponent - (digits.length - (fill significand digits).2.length)) t := by
  induction digits generalizing significand exponent started with
  | nil =>
    obtain rfl := some'.resolve_right (by simp)
    rw [fill, List.length_nil, Int.sub_self, Int.sub_zero]
    exact afterFraction_of_stops negative h
  | cons d digits ih =>
    change fractionDigits negative significand exponent started
      (digitByte d :: (digitBytes digits ++ t)) = _
    rw [fractionDigits, digit_digitByte, fill]
    dsimp only
    by_cases room : fits significand d.val = true
    · rw [if_pos room, if_pos room, ih _ _ true (.inl rfl), List.length_cons]
      congr 1
      omega
    · have all := skipDigits_bytes (d :: digits) h
      rw [if_neg room, if_neg room, Int.sub_self, Int.sub_zero]
      exact congrArg _ all

theorem toOption_finish (significand : Nat) (exponent : Int) (t : List UInt8) :
    (finish negative significand exponent t).toOption =
      (scaledNumber negative significand exponent).map (·, t) := by
  unfold finish scaledNumber
  cases scaled significand exponent with
  | none => rfl
  | some x => rfl

theorem exponentDigits_of_stops {significand value : Nat} {exponent : Int} {down : Bool}
    {t : List UInt8} (h : Stops t) :
    exponentDigits negative significand exponent down value t =
      finish negative significand (exponent + shift down value) t := by
  cases t with
  | nil => rfl
  | cons b rest => rw [exponentDigits, h b rest rfl]

theorem exponentDigits_bytes (significand : Nat) (exponent : Int) (down : Bool) (value : Nat)
    (small : value < exponentLimit) (digits : Digits) {t : List UInt8} (h : Stops t) :
    (exponentDigits negative significand exponent down value (digitBytes digits ++ t)).toOption =
      (if decimal value digits < exponentLimit then
        scaledNumber negative significand (exponent + shift down (decimal value digits))
      else if significand ≠ 0 ∧ !down then none
      else some (.binary ⟨negative, 0⟩)).map (·, t) := by
  induction digits generalizing value with
  | nil =>
    rw [if_pos (show decimal value [] < exponentLimit from small), ← toOption_finish]
    exact congrArg Except.toOption (exponentDigits_of_stops negative h)
  | cons d digits ih =>
    change (exponentDigits negative significand exponent down value
      (digitByte d :: (digitBytes digits ++ t))).toOption = _
    rw [exponentDigits, digit_digitByte, decimal_cons]
    dsimp only
    by_cases room : value * 10 + d.val < exponentLimit
    · rw [if_pos room]
      exact ih _ room
    · have large : ¬decimal (value * 10 + d.val) digits < exponentLimit := by
        have grows := le_decimal (value * 10 + d.val) digits
        omega
      rw [if_neg room, if_neg large, skipDigits_bytes digits h]
      by_cases refused : significand ≠ 0 ∧ (!down) = true
      · rw [if_pos refused, if_pos refused]
        rfl
      · rw [if_neg refused, if_neg refused]
        rfl

theorem sign_digit (d : Fin 10) : digitByte d ≠ plus ∧ digitByte d ≠ minus := by
  revert d
  decide

theorem lead_small (d : Fin 10) : d.val < exponentLimit :=
  Nat.lt_trans d.isLt (by decide)

theorem exponentPart_bytes (significand : Nat) (exponent : Int) (x : Exponent) {t : List UInt8}
    (h : Stops t) :
    (exponentPart negative significand exponent
      (x.signBytes ++ digitBytes (x.lead :: x.more) ++ t)).toOption =
      (withExponent negative significand exponent (some x)).map (·, t) := by
  have digits := exponentDigits_bytes negative significand exponent x.down x.lead.val
    (lead_small x.lead) x.more h
  obtain ⟨upper, sign, lead, more⟩ := x
  cases sign with
  | none =>
    change (exponentPart negative significand exponent
      (digitByte lead :: (digitBytes more ++ t))).toOption = _
    unfold exponentPart
    dsimp only
    rw [if_neg (sign_digit lead).1, if_neg (sign_digit lead).2]
    dsimp only
    rw [digit_digitByte]
    exact digits
  | some down =>
    cases down with
    | false =>
      change (exponentPart negative significand exponent
        (plus :: digitByte lead :: (digitBytes more ++ t))).toOption = _
      unfold exponentPart
      dsimp only
      rw [if_pos rfl]
      dsimp only
      rw [digit_digitByte]
      exact digits
    | true =>
      change (exponentPart negative significand exponent
        (minus :: digitByte lead :: (digitBytes more ++ t))).toOption = _
      unfold exponentPart
      dsimp only
      rw [if_neg (by decide), if_pos rfl]
      dsimp only
      rw [digit_digitByte]
      exact digits

theorem exponentLetter (x : Exponent) :
    ∃ letter, x.bytes = letter :: (x.signBytes ++ digitBytes (x.lead :: x.more)) ∧
      isExponentLetter letter = true ∧ digit? letter = none ∧ letter ≠ point := by
  refine ⟨if x.upper then upperE else lowerE, rfl, ?_⟩
  cases x.upper <;> decide

theorem stops_exponentBytes (exponent : Option Exponent) {t : List UInt8} (h : Stops t) :
    Stops (exponentBytes exponent ++ t) := by
  cases exponent with
  | none => exact h
  | some x =>
    obtain ⟨letter, bytes, -, digit, -⟩ := exponentLetter x
    rw [exponentBytes, bytes]
    exact stops_cons digit _

theorem afterFraction_bytes (significand : Nat) (exponent : Int) (part : Option Exponent)
    {t : List UInt8} (h : Ends t) :
    (afterFraction negative significand exponent (exponentBytes part ++ t)).toOption =
      (withExponent negative significand exponent part).map (·, t) := by
  cases part with
  | none =>
    change (afterFraction negative significand exponent t).toOption = _
    cases t with
    | nil => exact toOption_finish negative significand exponent []
    | cons b rest =>
      obtain ⟨-, -, letter⟩ := not_number_of_ends (h b rest rfl)
      unfold afterFraction
      dsimp only
      rw [letter]
      exact toOption_finish negative significand exponent (b :: rest)
  | some x =>
    obtain ⟨letter, bytes, isLetter, -, -⟩ := exponentLetter x
    rw [exponentBytes, bytes, List.cons_append, afterFraction]
    rw [if_pos isLetter]
    exact exponentPart_bytes negative significand exponent x h.stops

theorem excessDigits_tail (significand : Nat) (exponent : Int) (fraction : Digits)
    (part : Option Exponent) {t : List UInt8} (h : Ends t) :
    (excessDigits negative significand exponent
      (fractionBytes fraction ++ (exponentBytes part ++ t))).toOption =
      (withExponent negative (fill significand fraction).1
        (exponent - (fraction.length - (fill significand fraction).2.length)) part).map (·, t) := by
  have stops := stops_exponentBytes part h.stops
  cases fraction with
  | nil =>
    change (excessDigits negative significand exponent (exponentBytes part ++ t)).toOption = _
    rw [fill, List.length_nil, Int.sub_self, Int.sub_zero,
      ← afterFraction_bytes negative significand exponent part h]
    congr 1
    cases part with
    | none =>
      cases t with
      | nil => rfl
      | cons b rest =>
        obtain ⟨digit, dot, -⟩ := not_number_of_ends (h b rest rfl)
        change excessDigits negative significand exponent (b :: rest) = _
        rw [excessDigits, digit]
        exact if_neg dot
    | some x =>
      obtain ⟨letter, bytes, -, digit, dot⟩ := exponentLetter x
      rw [exponentBytes, bytes, List.cons_append, excessDigits, digit]
      exact if_neg dot
  | cons d digits =>
    change (excessDigits negative significand exponent
      (point :: (digitBytes (d :: digits) ++ (exponentBytes part ++ t)))).toOption = _
    rw [excessDigits, show digit? point = none from rfl]
    dsimp only
    rw [if_pos rfl, fractionDigits_bytes negative significand exponent false (d :: digits)
      (.inr (List.cons_ne_nil d digits)) stops]
    exact afterFraction_bytes negative _ _ part h

theorem afterWhole_tail (significand : Nat) (fraction : Digits) (part : Option Exponent)
    {t : List UInt8} (h : Ends t) :
    (afterWhole negative significand
      (fractionBytes fraction ++ (exponentBytes part ++ t))).toOption =
      (if fraction = [] ∧ part = none then some (wholeNumber negative significand)
      else withExponent negative (fill significand fraction).1
        (-(fraction.length - (fill significand fraction).2.length)) part).map (·, t) := by
  have stops := stops_exponentBytes part h.stops
  cases fraction with
  | nil =>
    change (afterWhole negative significand (exponentBytes part ++ t)).toOption = _
    cases part with
    | none =>
      rw [if_pos ⟨rfl, rfl⟩]
      change (afterWhole negative significand t).toOption = _
      cases t with
      | nil => rfl
      | cons b rest =>
        obtain ⟨-, dot, letter⟩ := not_number_of_ends (h b rest rfl)
        rw [afterWhole]
        rw [if_neg dot, letter]
        rfl
    | some x =>
      obtain ⟨letter, bytes, isLetter, -, dot⟩ := exponentLetter x
      rw [exponentBytes, bytes, List.cons_append, afterWhole]
      rw [if_neg dot, if_pos isLetter, if_neg (by simp)]
      exact exponentPart_bytes negative significand 0 x h.stops
  | cons d digits =>
    change (afterWhole negative significand
      (point :: (digitBytes (d :: digits) ++ (exponentBytes part ++ t)))).toOption = _
    rw [afterWhole]
    rw [if_pos rfl, if_neg (by simp), fractionDigits_bytes negative significand 0 false
      (d :: digits) (.inr (List.cons_ne_nil d digits)) stops, Int.zero_sub]
    exact afterFraction_bytes negative _ _ part h

end

theorem stops_fractionBytes (fraction : Digits) {t : List UInt8} (h : Stops t) :
    Stops (fractionBytes fraction ++ t) := by
  cases fraction with
  | nil => exact h
  | cons d digits => exact stops_cons rfl _

theorem fill_zero (d : Fin 10) (digits : Digits) : fill 0 (d :: digits) = fill d.val digits := by
  have room : fits 0 d.val = true := by
    revert d
    decide
  rw [fill, if_pos room, Nat.zero_mul, Nat.zero_add]

theorem unsignedNumber_zero (negative : Bool) {t : List UInt8} (h : Stops t) :
    unsignedNumber negative (digitByte 0 :: t) = afterWhole negative 0 t := by
  unfold unsignedNumber
  dsimp only
  rw [show digit? (digitByte 0) = some 0 from rfl]
  cases t with
  | nil => rfl
  | cons c rest =>
    dsimp only
    rw [h c rest rfl]
    rfl

theorem unsignedNumber_lead (negative : Bool) {d : Fin 10} (h : d ≠ 0) (s : List UInt8) :
    unsignedNumber negative (digitByte d :: s) = wholeDigits negative d.val s := by
  unfold unsignedNumber
  dsimp only
  rw [digit_digitByte]
  cases value : d.val with
  | zero => exact absurd (Fin.ext value) h
  | succ n => rfl

/-- In front of its tail a literal with a zero or without one is read as the same digits. -/
theorem unsignedNumber_whole (l : Literal) {t : List UInt8} (h : Stops t) :
    unsignedNumber l.negative (digitBytes (l.lead :: l.more) ++ t) =
      if (fill 0 (l.lead :: l.more)).2 = [] then
        afterWhole l.negative (fill 0 (l.lead :: l.more)).1 t
      else
        excessDigits l.negative (fill 0 (l.lead :: l.more)).1
          (fill 0 (l.lead :: l.more)).2.length t := by
  change unsignedNumber l.negative (digitByte l.lead :: (digitBytes l.more ++ t)) = _
  by_cases zero : l.lead = 0
  · have alone : l.more = [] := l.noZeroInFront.resolve_right (by simpa using zero)
    rw [zero, alone]
    exact unsignedNumber_zero l.negative h
  · rw [unsignedNumber_lead l.negative zero, wholeDigits_bytes l.negative _ _ h, fill_zero]

/-- The digits, the places and the exponent of a literal make its number. -/
theorem unsignedNumber_bytes (l : Literal) {t : List UInt8} (h : Ends t) :
    (unsignedNumber l.negative (l.magnitudeBytes ++ t)).toOption = l.number?.map (·, t) := by
  have stops := stops_fractionBytes l.fraction (stops_exponentBytes l.exponent h.stops)
  rw [Literal.magnitudeBytes, List.append_assoc, List.append_assoc, unsignedNumber_whole l stops,
    Literal.number?]
  by_cases all : (fill 0 (l.lead :: l.more)).2 = []
  · rw [if_pos all, afterWhole_tail l.negative _ _ _ h, all]
    simp only [and_true, List.length_nil, Int.natCast_zero, Int.zero_sub]
  · rw [if_neg all, excessDigits_tail l.negative _ _ _ _ h, if_neg (by simp [all])]

theorem readNumber_bytes (l : Literal) {t : List UInt8} (h : Ends t) :
    (readNumber (l.bytes ++ t)).toOption = l.number?.map (·, t) := by
  have unsigned := unsignedNumber_bytes l h
  unfold Literal.bytes readNumber
  cases sign : l.negative with
  | true =>
    rw [sign] at unsigned
    exact unsigned
  | false =>
    rw [sign] at unsigned
    change (if digitByte l.lead = minus then _
      else unsignedNumber false (l.magnitudeBytes ++ t)).toOption = _
    rw [if_neg (sign_digit l.lead).2]
    exact unsigned

theorem rest_of_toOption {α : Type} {read : Read α} {value : Option α} {a : α}
    {rest t : List UInt8} (spec : read.toOption = value.map (·, rest)) (h : read = .ok (a, t)) :
    value = some a ∧ rest = t := by
  rw [h] at spec
  cases value with
  | none => cases spec
  | some b =>
    cases Option.some.inj spec
    exact ⟨rfl, rfl⟩

section

variable {negative : Bool} {significand : Nat} {exponent : Int} {n : Number} {s t : List UInt8}

theorem rest_of_finish (h : finish negative significand exponent s = .ok (n, t)) : s = t :=
  (rest_of_toOption (toOption_finish negative significand exponent s) h).2

theorem bytes_of_exponentDigits {down : Bool} {d : Fin 10}
    (h : exponentDigits negative significand exponent down d.val s = .ok (n, t)) :
    ∃ digits, s = digitBytes digits ++ t := by
  obtain ⟨digits, rest, rfl, stops⟩ := exists_digits s
  have spec := exponentDigits_bytes negative significand exponent down d.val (lead_small d) digits
    stops
  exact ⟨digits, by rw [(rest_of_toOption spec h).2]⟩

def exponentBehind (negative : Bool) (significand : Nat) (exponent : Int) (down : Bool) :
    List UInt8 → Read Number
  | [] => .error (.before .endInValue [])
  | b :: rest =>
    match digit? b with
    | some d => exponentDigits negative significand exponent down d rest
    | none => .error (.before .badNumber rest)

theorem bytes_of_exponentBehind {down : Bool}
    (h : exponentBehind negative significand exponent down s = .ok (n, t)) :
    ∃ d digits, s = digitBytes (d :: digits) ++ t := by
  cases s with
  | nil => cases h
  | cons b rest =>
    unfold exponentBehind at h
    dsimp only at h
    cases digit : digit? b with
    | none =>
      rw [digit] at h
      cases h
    | some v =>
      rw [digit] at h
      obtain ⟨d, rfl, rfl⟩ := exists_digitByte digit
      obtain ⟨digits, rfl⟩ := bytes_of_exponentDigits h
      exact ⟨d, digits, rfl⟩

/-- An exponent is read from behind its letter, which may be a capital. -/
theorem bytes_of_exponentPart (upper : Bool)
    (h : exponentPart negative significand exponent s = .ok (n, t)) :
    ∃ x : Exponent, x.upper = upper ∧ s = x.signBytes ++ digitBytes (x.lead :: x.more) ++ t := by
  unfold exponentPart at h
  cases s with
  | nil => cases h
  | cons b rest =>
    dsimp only at h
    by_cases isPlus : b = plus
    · rw [if_pos isPlus] at h
      change exponentBehind negative significand exponent false rest = .ok (n, t) at h
      obtain ⟨d, digits, rfl⟩ := bytes_of_exponentBehind h
      exact ⟨⟨upper, some false, d, digits⟩, rfl, isPlus ▸ rfl⟩
    · rw [if_neg isPlus] at h
      by_cases isMinus : b = minus
      · rw [if_pos isMinus] at h
        change exponentBehind negative significand exponent true rest = .ok (n, t) at h
        obtain ⟨d, digits, rfl⟩ := bytes_of_exponentBehind h
        exact ⟨⟨upper, some true, d, digits⟩, rfl, isMinus ▸ rfl⟩
      · rw [if_neg isMinus] at h
        change exponentBehind negative significand exponent false (b :: rest) = .ok (n, t) at h
        obtain ⟨d, digits, same⟩ := bytes_of_exponentBehind h
        exact ⟨⟨upper, none, d, digits⟩, rfl, same⟩

theorem letter_cases {b : UInt8} (h : isExponentLetter b = true) :
    ∃ upper : Bool, b = if upper then upperE else lowerE := by
  simp only [isExponentLetter, Bool.or_eq_true, beq_iff_eq] at h
  rcases h with rfl | rfl
  · exact ⟨false, rfl⟩
  · exact ⟨true, rfl⟩

theorem exponentBytes_of_letter {b : UInt8} {rest : List UInt8} (letter : isExponentLetter b = true)
    (h : ∀ upper, ∃ x : Exponent, x.upper = upper ∧
      rest = x.signBytes ++ digitBytes (x.lead :: x.more) ++ t) :
    ∃ part, b :: rest = exponentBytes part ++ t := by
  obtain ⟨upper, hb⟩ := letter_cases letter
  obtain ⟨x, rfl, rfl⟩ := h upper
  exact ⟨some x, by rw [hb]; rfl⟩

theorem bytes_of_afterFraction (h : afterFraction negative significand exponent s = .ok (n, t)) :
    ∃ part, s = exponentBytes part ++ t := by
  cases s with
  | nil => exact ⟨none, rest_of_finish h⟩
  | cons b rest =>
    unfold afterFraction at h
    dsimp only at h
    by_cases letter : isExponentLetter b = true
    · rw [if_pos letter] at h
      exact exponentBytes_of_letter letter fun upper => bytes_of_exponentPart upper h
    · rw [if_neg letter] at h
      exact ⟨none, rest_of_finish h⟩

theorem bytes_of_fractionDigits
    (h : fractionDigits negative significand exponent false s = .ok (n, t)) :
    ∃ fraction part, point :: s = fractionBytes fraction ++ (exponentBytes part ++ t) := by
  obtain ⟨digits, rest, rfl, stops⟩ := exists_digits s
  cases digits with
  | nil =>
    change fractionDigits negative significand exponent false rest = .ok (n, t) at h
    cases rest with
    | nil => cases h
    | cons b rest =>
      rw [fractionDigits, stops b rest rfl] at h
      cases h
  | cons d digits =>
    rw [fractionDigits_bytes negative significand exponent false (d :: digits)
      (.inr (List.cons_ne_nil d digits)) stops] at h
    obtain ⟨part, rfl⟩ := bytes_of_afterFraction h
    exact ⟨d :: digits, part, rfl⟩

theorem bytes_of_afterWhole (h : afterWhole negative significand s = .ok (n, t)) :
    ∃ fraction part, s = fractionBytes fraction ++ (exponentBytes part ++ t) := by
  cases s with
  | nil =>
    cases h
    exact ⟨[], none, rfl⟩
  | cons b rest =>
    unfold afterWhole at h
    dsimp only at h
    by_cases dot : b = point
    · rw [if_pos dot] at h
      rw [dot]
      exact bytes_of_fractionDigits h
    · rw [if_neg dot] at h
      by_cases letter : isExponentLetter b = true
      · rw [if_pos letter] at h
        obtain ⟨part, hpart⟩ :=
          exponentBytes_of_letter letter fun upper => bytes_of_exponentPart upper h
        exact ⟨[], part, hpart⟩
      · rw [if_neg letter] at h
        cases h
        exact ⟨[], none, rfl⟩

theorem bytes_of_excessDigits (stops : Stops s)
    (h : excessDigits negative significand exponent s = .ok (n, t)) :
    ∃ fraction part, s = fractionBytes fraction ++ (exponentBytes part ++ t) := by
  cases s with
  | nil => exact ⟨[], none, rest_of_finish h⟩
  | cons b rest =>
    rw [excessDigits, stops b rest rfl] at h
    dsimp only at h
    by_cases dot : b = point
    · rw [if_pos dot] at h
      rw [dot]
      exact bytes_of_fractionDigits h
    · rw [if_neg dot] at h
      obtain ⟨part, hpart⟩ := bytes_of_afterFraction h
      exact ⟨[], part, hpart⟩

/-- Whatever is read as a number without its sign has the digits of a literal. -/
theorem bytes_of_unsignedNumber (h : unsignedNumber negative s = .ok (n, t)) :
    ∃ l : Literal, l.negative = negative ∧ s = l.magnitudeBytes ++ t := by
  cases s with
  | nil => cases h
  | cons b rest =>
    cases digit : digit? b with
    | none =>
      unfold unsignedNumber at h
      dsimp only at h
      rw [digit] at h
      cases h
    | some v =>
      obtain ⟨d, rfl, -⟩ := exists_digitByte digit
      by_cases zero : d = 0
      · subst zero
        have stops : Stops rest := by
          intro c after hc
          subst hc
          cases next : digit? c with
          | none => rfl
          | some _ =>
            unfold unsignedNumber at h
            dsimp only at h
            rw [show digit? (digitByte 0) = some 0 from rfl] at h
            rw [next] at h
            cases h
        rw [unsignedNumber_zero negative stops] at h
        obtain ⟨fraction, part, rfl⟩ := bytes_of_afterWhole h
        refine ⟨⟨negative, 0, [], fraction, part, .inl rfl⟩, rfl, ?_⟩
        simp [Literal.magnitudeBytes, digitBytes]
      · rw [unsignedNumber_lead negative zero] at h
        obtain ⟨digits, after, rfl, stops⟩ := exists_digits rest
        rw [wholeDigits_bytes negative d.val digits stops] at h
        have tail : ∃ fraction part,
            after = fractionBytes fraction ++ (exponentBytes part ++ t) := by
          by_cases all : (fill d.val digits).2 = []
          · rw [if_pos all] at h
            exact bytes_of_afterWhole h
          · rw [if_neg all] at h
            exact bytes_of_excessDigits stops h
        obtain ⟨fraction, part, rfl⟩ := tail
        refine ⟨⟨negative, d, digits, fraction, part, .inr zero⟩, rfl, ?_⟩
        simp [Literal.magnitudeBytes, digitBytes]

theorem bytes_of_readNumber (h : readNumber s = .ok (n, t)) : ∃ l : Literal, s = l.bytes ++ t := by
  cases s with
  | nil => cases h
  | cons b rest =>
    unfold readNumber at h
    dsimp only at h
    by_cases sign : b = minus
    · rw [if_pos sign] at h
      obtain ⟨l, negative, rfl⟩ := bytes_of_unsignedNumber h
      refine ⟨l, ?_⟩
      rw [Literal.bytes, negative, sign]
      rfl
    · rw [if_neg sign] at h
      obtain ⟨l, negative, hs⟩ := bytes_of_unsignedNumber h
      refine ⟨l, ?_⟩
      rw [Literal.bytes, negative]
      exact hs

end

end DiveTable.Json
