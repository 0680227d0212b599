import DiveTable.Proofs.SpelledValues

/-! # Skipping what is spelled

A value that is skipped is walked over with a list of the containers that are open. What that list
demands of the text that is left tells what a walk that ends has gone over: one value. Every value
can be skipped, whatever its numbers, strings and depth are. -/
namespace DiveTable.Json

open Ascii

def Inside : Container → Bool → List UInt8 → List UInt8 → Prop
  | .list, first, s, t => ∃ items, SpellsItems first items s t
  | .object, first, s, t => ∃ members, SpellsMembers first members s t

/-- What the open containers demand of the text behind a value. -/
def Closes : List Container → List UInt8 → List UInt8 → Prop
  | [], s, t => s = t
  | container :: outer, s, t => ∃ u, Inside container false s u ∧ Closes outer u t

def Demands : Place → List Container → List UInt8 → List UInt8 → Prop
  | .value, enclosing, s, t => ∃ expr u, Spells expr s u ∧ Closes enclosing u t
  | .behindValue, enclosing, s, t => Closes enclosing s t
  | .opened, [], s, t => s = t
  | .opened, container :: outer, s, t => ∃ u, Inside container true s u ∧ Closes outer u t

/-! ## The start of a value -/

section

variable {s t : List UInt8}

theorem skipStart_behind (h : Behind s t) : skipStart s = skipStart t := by
  unfold skipStart
  rw [h.skipSpace]

theorem skipStart_minus (rest : List UInt8) :
    skipStart (minus :: rest) = (skipUnsigned rest).map fun u => (none, u) := rfl

theorem skipStart_digit (d : Fin 10) (rest : List UInt8) :
    skipStart (digitByte d :: rest) =
      (skipUnsigned (digitByte d :: rest)).map fun u => (none, u) := by
  have starts : startsNumber (digitByte d) = true := by
    rw [startsNumber, digit_digitByte]
    exact Bool.or_true _
  have digit : (digit? (digitByte d)).isSome = true := by rw [digit_digitByte]; rfl
  unfold skipStart
  rw [skipSpace_cons (opening_digitByte d).visible]
  dsimp only
  rw [if_neg (ne_of_startsNumber starts rfl), if_neg (ne_of_startsNumber starts rfl),
    if_neg (ne_of_startsNumber starts rfl), if_neg (sign_digit d).2, if_pos digit]

theorem skipStart_number (l : Literal) (ends : Ends t) :
    skipStart (l.bytes ++ t) = .ok (none, t) := by
  have skipped := skipUnsigned_bytes l ends
  unfold Literal.bytes
  cases l.negative with
  | true =>
    change skipStart (minus :: (l.magnitudeBytes ++ t)) = _
    rw [skipStart_minus, skipped]
    rfl
  | false =>
    obtain ⟨rest, bytes⟩ : ∃ rest, l.magnitudeBytes = digitByte l.lead :: rest := ⟨_, rfl⟩
    rw [bytes, List.cons_append] at skipped
    change skipStart (l.magnitudeBytes ++ t) = _
    rw [bytes, List.cons_append, skipStart_digit, skipped]
    rfl

theorem number_of_skipStart {b : UInt8} {rest : List UInt8} {opened : Option Container}
    (starts : startsNumber b = true) (h : skipStart (b :: rest) = .ok (opened, t)) :
    opened = none ∧ ∃ l : Literal, b :: rest = l.bytes ++ t := by
  rw [startsNumber, Bool.or_eq_true, beq_iff_eq] at starts
  rcases starts with rfl | digit
  · rw [skipStart_minus] at h
    obtain ⟨u, found, same⟩ := map_eq_ok h
    cases same
    obtain ⟨l, sign, bytes⟩ := bytes_of_skipUnsigned true found
    refine ⟨rfl, l, ?_⟩
    rw [Literal.bytes, sign, bytes]
    rfl
  · obtain ⟨n, hn⟩ := Option.isSome_iff_exists.1 digit
    obtain ⟨d, rfl, -⟩ := exists_digitByte hn
    rw [skipStart_digit] at h
    obtain ⟨u, found, same⟩ := map_eq_ok h
    cases same
    obtain ⟨l, sign, bytes⟩ := bytes_of_skipUnsigned false found
    refine ⟨rfl, l, ?_⟩
    rw [Literal.bytes, sign, bytes]
    rfl

theorem begins_of_skipStart {pair : Option Container × List UInt8}
    (h : skipStart s = .ok pair) : ∃ b rest, Behind s (b :: rest) ∧ Begins b := by
  unfold skipStart at h
  cases hs : skipSpace s with
  | nil =>
    rw [hs] at h
    cases h
  | cons b rest =>
    refine ⟨b, rest, behind_of_skipSpace hs, ?_⟩
    rw [hs] at h
    apply Classical.byContradiction
    intro none
    simp only [Begins, startsNumber, Bool.or_eq_true, beq_iff_eq, not_or] at none
    obtain ⟨⟨notMinus, notDigit⟩, notNull, notTrue, notFalse, notQuote, notBracket, notBrace⟩ := none
    dsimp only at h
    rw [if_neg notNull, if_neg notTrue, if_neg notFalse, if_neg notMinus, if_neg notDigit,
      if_neg notQuote, if_neg notBracket, if_neg notBrace] at h
    cases h

/-- A start that is skipped whole is a value, and else it opens a container. -/
theorem skipStart_cases {opened : Option Container} (h : skipStart s = .ok (opened, t)) :
    (opened = none ∧ ∃ expr, Spells expr s t) ∨
      (opened = some .list ∧ Behind s (openBracket :: t)) ∨
        (opened = some .object ∧ Behind s (openBrace :: t)) := by
  obtain ⟨b, rest, behind, begins⟩ := begins_of_skipStart h
  rw [skipStart_behind behind] at h
  rcases begins with starts | rfl | rfl | rfl | rfl | rfl | rfl
  · obtain ⟨none, l, bytes⟩ := number_of_skipStart starts h
    exact .inl ⟨none, .number l, .number l (bytes ▸ behind)⟩
  · obtain ⟨u, found, same⟩ := map_eq_ok h
    cases same
    exact .inl ⟨rfl, .null, .null (keyword_eq_ok.1 found ▸ behind)⟩
  · obtain ⟨u, found, same⟩ := map_eq_ok h
    cases same
    exact .inl ⟨rfl, .boolean true, .yes (keyword_eq_ok.1 found ▸ behind)⟩
  · obtain ⟨u, found, same⟩ := map_eq_ok h
    cases same
    exact .inl ⟨rfl, .boolean false, .no (keyword_eq_ok.1 found ▸ behind)⟩
  · obtain ⟨u, found, same⟩ := map_eq_ok h
    cases same
    obtain ⟨raw, rfl, isToken⟩ := token_of_skipString found
    exact .inl ⟨rfl, .string raw, .string behind isToken⟩
  · cases h
    exact .inr (.inl ⟨rfl, behind⟩)
  · cases h
    exact .inr (.inr ⟨rfl, behind⟩)

end

/-! ## A walk over a value -/

section

variable {s t u : List UInt8} {outer : List Container} {container : Container}

def Place.among (first : Bool) : Place := if first then .opened else .behindValue

theorem skipOpen_value {v : List UInt8} (same : skipSpace s = skipSpace v) (fuel : Nat)
    (enclosing : List Container) :
    skipOpen (fuel + 1) .value enclosing s = skipOpen (fuel + 1) .value enclosing v := by
  unfold skipOpen skipStart
  rw [same]

/-- One round among the entries of a container. -/
theorem skipOpen_among {b : UInt8} {rest : List UInt8} (hs : skipSpace s = b :: rest) (first : Bool)
    (fuel : Nat) :
    skipOpen (fuel + 1) (.among first) (container :: outer) s =
      if b = container.closing then skipOpen fuel .behindValue outer rest
      else if first = true then
        Except.bind (skipKey container (b :: rest)) (skipOpen fuel .value (container :: outer))
      else if b = comma then
        Except.bind (skipKey container rest) (skipOpen fuel .value (container :: outer))
      else .error (.on container.expectedEnd (b :: rest)) := by
  cases first with
  | true =>
    change skipOpen (fuel + 1) .opened (container :: outer) s = _
    conv => lhs; unfold skipOpen
    rw [hs]
    rfl
  | false =>
    change skipOpen (fuel + 1) .behindValue (container :: outer) s = _
    conv => lhs; unfold skipOpen
    rw [hs]
    rfl

theorem skipOpen_ended (hs : skipSpace s = []) (first : Bool) (fuel : Nat) :
    skipOpen (fuel + 1) (.among first) (container :: outer) s =
      .error (.on container.atEnd []) := by
  cases first with
  | true =>
    change skipOpen (fuel + 1) .opened (container :: outer) s = _
    unfold skipOpen
    rw [hs]
  | false =>
    change skipOpen (fuel + 1) .behindValue (container :: outer) s = _
    unfold skipOpen
    rw [hs]

theorem skipOpen_closing (h : Behind s (container.closing :: t)) (first : Bool) (fuel : Nat) :
    skipOpen (fuel + 1) (.among first) (container :: outer) s =
      skipOpen fuel .behindValue outer t := by
  have visible : isSpace container.closing = false := by cases container <;> rfl
  rw [skipOpen_among (h.skipSpace_eq visible), if_pos rfl]

/-- At an entry the walk goes on behind its key, if it has one. -/
theorem skipOpen_entry {first : Bool} (h : Separated first s u) {b : UInt8} {rest : List UInt8}
    (begins : skipSpace u = b :: rest) (notClosing : b ≠ container.closing) (fuel : Nat) :
    ∃ v, skipSpace v = skipSpace u ∧ skipOpen (fuel + 1) (.among first) (container :: outer) s =
      Except.bind (skipKey container v) (skipOpen fuel .value (container :: outer)) := by
  cases first with
  | true =>
    have same : s = u := h
    refine ⟨b :: rest, ?_, ?_⟩
    · rw [begins]
      exact (behind_of_skipSpace begins).skipSpace.symm.trans begins
    rw [same, skipOpen_among begins, if_neg notClosing, if_pos rfl]
  | false =>
    have notEnd : comma ≠ container.closing := by cases container <;> decide
    refine ⟨u, rfl, ?_⟩
    rw [skipOpen_among (Behind.skipSpace_eq h rfl), if_neg notEnd, if_neg Bool.false_ne_true,
      if_pos rfl]

theorem skipKey_object {v w token : List UInt8} (key : Behind s (quote :: (token ++ quote :: v)))
    (isToken : Token token) (middle : Behind v (colon :: w)) :
    skipKey .object s = .ok w := by
  unfold skipKey
  rw [key.skipSpace_eq rfl]
  dsimp only
  rw [if_pos rfl, skipString_token isToken]
  exact skipColon_eq_ok.2 middle

/-- A walk to behind a value, within two rounds for each byte and whatever is open around it. -/
def Walks (start : Place) (opened : List Container) (s t : List UInt8) : Prop :=
  ∃ rounds, rounds + 1 + 2 * t.length < 2 * s.length ∧ ∀ fuel outer,
    skipOpen (rounds + fuel + 1) start (opened ++ outer) s = skipOpen fuel .behindValue outer t

theorem walks_start (h : skipStart s = .ok (none, t)) (shorter : t.length < s.length) :
    Walks .value [] s t := by
  refine ⟨0, by omega, ?_⟩
  intro fuel outer
  rw [Nat.zero_add, List.nil_append]
  conv => lhs; unfold skipOpen
  rw [h]
  rfl

theorem walks_open (h : skipStart s = .ok (some container, u)) (shorter : u.length < s.length)
    (inside : Walks (.among true) [container] u t) : Walks .value [] s t := by
  obtain ⟨rounds, bounded, walk⟩ := inside
  refine ⟨rounds + 1, by omega, ?_⟩
  intro fuel outer
  rw [Nat.add_right_comm rounds 1 fuel, List.nil_append]
  conv => lhs; unfold skipOpen
  rw [h]
  exact walk fuel outer

theorem walks_closing (h : Behind s (container.closing :: t)) (first : Bool) :
    Walks (.among first) [container] s t := by
  have shorter := h.length_le
  rw [List.length_cons] at shorter
  refine ⟨0, by omega, ?_⟩
  intro fuel outer
  rw [Nat.zero_add]
  exact skipOpen_closing h first fuel

/-- A value behind its separator and its key, and what follows it. -/
theorem walks_entry {first : Bool} {w x : List UInt8} {b : UInt8} {rest : List UInt8}
    (h : Separated first s u) (begins : skipSpace u = b :: rest)
    (notClosing : b ≠ container.closing) (shorter : w.length ≤ u.length)
    (behindKey : ∀ v, skipSpace v = skipSpace u →
      ∃ w', skipKey container v = .ok w' ∧ skipSpace w' = skipSpace w)
    (head : Walks .value [] w x) (tail : Walks (.among false) [container] x t) :
    Walks (.among first) [container] s t := by
  obtain ⟨headRounds, headBounded, headWalk⟩ := head
  obtain ⟨tailRounds, tailBounded, tailWalk⟩ := tail
  have separated := h.length_le
  refine ⟨headRounds + 1 + tailRounds + 1, by omega, ?_⟩
  intro fuel outer
  obtain ⟨v, same, step⟩ :=
    @skipOpen_entry s u outer container first h b rest begins notClosing
      (headRounds + (tailRounds + fuel + 1) + 1)
  obtain ⟨w', key, same'⟩ := behindKey v same
  have rounds : headRounds + 1 + tailRounds + 1 + fuel + 1 =
      headRounds + (tailRounds + fuel + 1) + 1 + 1 := by omega
  rw [rounds]
  calc skipOpen (headRounds + (tailRounds + fuel + 1) + 1 + 1) (.among first) (container :: outer) s
      = skipOpen (headRounds + (tailRounds + fuel + 1) + 1) .value (container :: outer) w' := by
        rw [step, key]
        rfl
    _ = skipOpen (headRounds + (tailRounds + fuel + 1) + 1) .value (container :: outer) w :=
        skipOpen_value same' _ _
    _ = skipOpen (tailRounds + fuel + 1) (.among false) (container :: outer) x :=
        headWalk _ (container :: outer)
    _ = skipOpen fuel .behindValue outer t := tailWalk fuel outer

end

mutual

/-- A value is walked over round by round. -/
theorem Spells.walks {expr : Expr} {s t : List UInt8} (spelled : Spells expr s t) (ends : Ends t) :
    Walks .value [] s t :=
  have shorter := spelled.length_lt
  match spelled with
  | .null h => walks_start ((skipStart_behind h).trans rfl) shorter
  | .yes h => walks_start ((skipStart_behind h).trans rfl) shorter
  | .no h => walks_start ((skipStart_behind h).trans rfl) shorter
  | .number l h => walks_start ((skipStart_behind h).trans (skipStart_number l ends)) shorter
  | .string h isToken => by
    refine walks_start ((skipStart_behind h).trans ?_) shorter
    change (skipString .plain _).map _ = _
    rw [skipString_token isToken]
    rfl
  | .array h inside => by
    have opened := h.length_le
    rw [List.length_cons] at opened
    exact walks_open ((skipStart_behind h).trans rfl) (by omega) inside.walks
  | .object h inside => by
    have opened := h.length_le
    rw [List.length_cons] at opened
    exact walks_open ((skipStart_behind h).trans rfl) (by omega) inside.walks

theorem SpellsItems.walks {first : Bool} {items : List Expr} {s t : List UInt8} :
    SpellsItems first items s t → Walks (.among first) [.list] s t
  | .nil h => walks_closing h first
  | .cons h head tail => by
    obtain ⟨b, rest, begins, starts, -⟩ := head.opening
    have notBracket := (opening_of_starts starts).notBracket
    refine walks_entry h begins notBracket (Nat.le_refl _) ?_ (head.walks tail.ends)
      tail.walks
    intro v same
    exact ⟨v, rfl, same⟩

theorem SpellsMembers.walks {first : Bool} {members : List (List UInt8 × Expr)}
    {s t : List UInt8} : SpellsMembers first members s t → Walks (.among first) [.object] s t
  | .nil h => walks_closing h first
  | .cons h key isToken middle head tail => by
    have keyRead := key.length_le
    have colonRead := middle.length_le
    simp only [List.length_cons, List.length_append] at keyRead colonRead
    have begins := key.skipSpace_eq rfl
    refine walks_entry h begins (by decide) (by omega) ?_ (head.walks tail.ends) tail.walks
    intro v same
    exact ⟨_, skipKey_object (behind_of_skipSpace (same.trans begins)) isToken middle, rfl⟩

end

/-! ## What a walk has gone over -/

section

variable {s t u v v' w x : List UInt8} {container : Container} {outer : List Container}

theorem inside_closing {first : Bool} (h : Behind s (container.closing :: t)) :
    Inside container first s t := by
  cases container with
  | list => exact ⟨[], .nil h⟩
  | object => exact ⟨[], .nil h⟩

theorem key_of_skipKey (h : skipKey .object s = .ok w) :
    ∃ token v, Behind s (quote :: (token ++ quote :: v)) ∧ Token token ∧ Behind v (colon :: w) := by
  unfold skipKey at h
  dsimp only at h
  split at h
  · cases h
  · rename_i b rest hs
    split at h
    · rename_i opens
      obtain ⟨v, string, middle⟩ := bind_eq_ok h
      obtain ⟨token, rfl, isToken⟩ := token_of_skipString string
      rw [opens] at hs
      exact ⟨token, v, behind_of_skipSpace hs, isToken, skipColon_eq_ok.1 middle⟩
    · cases h

theorem inside_entry {first : Bool} {expr : Expr} (h : Separated first s v) (behind : Behind v v')
    (key : skipKey container v' = .ok w) (head : Spells expr w x)
    (tail : Inside container false x u) : Inside container first s u := by
  cases container with
  | list =>
    obtain ⟨items, tail⟩ := tail
    cases key
    exact ⟨expr :: items, .cons h (head.behind behind) tail⟩
  | object =>
    obtain ⟨members, tail⟩ := tail
    obtain ⟨token, y, opens, isToken, middle⟩ := key_of_skipKey key
    exact ⟨(token, expr) :: members, .cons h (behind.trans opens) isToken middle head tail⟩

theorem inside_of_skipOpen {fuel : Nat} {first : Bool}
    (later : ∀ {place : Place} {enclosing : List Container} {s : List UInt8},
      skipOpen fuel place enclosing s = .ok t → Demands place enclosing s t)
    (h : skipOpen (fuel + 1) (.among first) (container :: outer) s = .ok t) :
    ∃ u, Inside container first s u ∧ Closes outer u t := by
  cases hs : skipSpace s with
  | nil =>
    rw [skipOpen_ended hs] at h
    cases h
  | cons b rest =>
    have behind := behind_of_skipSpace hs
    rw [skipOpen_among hs] at h
    split at h
    · rename_i closing
      exact ⟨rest, inside_closing (closing ▸ behind), later h⟩
    · split at h
      · rename_i isFirst
        obtain ⟨w, key, h⟩ := bind_eq_ok h
        obtain ⟨expr, x, head, u, tail, closes⟩ := later h
        exact ⟨u, inside_entry (isFirst ▸ rfl) behind key head tail, closes⟩
      · rename_i notFirst
        split at h
        · rename_i separator
          obtain ⟨w, key, h⟩ := bind_eq_ok h
          obtain ⟨expr, x, head, u, tail, closes⟩ := later h
          rw [separator] at behind
          rw [Bool.not_eq_true] at notFirst
          rw [notFirst]
          exact ⟨u, inside_entry behind (.refl rest) key head tail, closes⟩
        · cases h

theorem demands_of_skipOpen {fuel : Nat} {place : Place} {enclosing : List Container}
    (h : skipOpen fuel place enclosing s = .ok t) : Demands place enclosing s t := by
  -- on the rounds, for every place: the demands of a round are those of what it opens or closes
  induction fuel generalizing place enclosing s with
  | zero => cases h
  | succ fuel ih =>
    cases place with
    | value =>
      obtain ⟨⟨opened, u⟩, start, h⟩ := bind_eq_ok h
      rcases skipStart_cases start with ⟨rfl, expr, spelled⟩ | ⟨rfl, behind⟩ | ⟨rfl, behind⟩
      · exact ⟨expr, u, spelled, ih h⟩
      · obtain ⟨v, ⟨items, inside⟩, closes⟩ := ih h
        exact ⟨.array items, v, .array behind inside, closes⟩
      · obtain ⟨v, ⟨members, inside⟩, closes⟩ := ih h
        exact ⟨.object members, v, .object behind inside, closes⟩
    | behindValue =>
      cases enclosing with
      | nil => exact Except.ok.inj h
      | cons container outer => exact @inside_of_skipOpen _ _ _ _ _ false ih h
    | opened =>
      cases enclosing with
      | nil => exact Except.ok.inj h
      | cons container outer => exact @inside_of_skipOpen _ _ _ _ _ true ih h

/-- Every value is skipped, with fuel for each byte of the text. -/
theorem skipValue_spelled {expr : Expr} (h : Spells expr s t) (ends : Ends t) {fuel : Nat}
    (bounded : s.length ≤ fuel) : skipValue fuel s = .ok t := by
  obtain ⟨rounds, roundsBounded, walk⟩ := h.walks ends
  obtain ⟨left, enough⟩ : ∃ left, 2 * fuel + 2 = rounds + (left + 1) + 1 :=
    ⟨2 * fuel - rounds, by omega⟩
  unfold skipValue
  rw [enough]
  exact walk (left + 1) []

theorem spells_of_skipValue {fuel : Nat} (h : skipValue fuel s = .ok t) :
    ∃ expr, Spells expr s t := by
  obtain ⟨expr, u, spelled, rfl⟩ := demands_of_skipOpen h
  exact ⟨expr, spelled⟩

end

end DiveTable.Json
