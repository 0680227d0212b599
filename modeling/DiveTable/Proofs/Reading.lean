import DiveTable.Proofs.Grammar
import DiveTable.Trace

/-! # Reading what is spelled

A reader takes one value off the front of a text. It finishes only where a value is spelled, and
what it gives then depends on the value alone, neither on how that is spelled nor on what stands
behind it. The items of a list and the members of an object are read as the single values are. -/
namespace DiveTable.Json

open Ascii

/-- What a reader makes of the values that `spells` tells, in texts of at most `bound` bytes. -/
structure Reads {ν α : Type} (spells : ν → List UInt8 → List UInt8 → Prop) (bound : Nat)
    (read : List UInt8 → Read α) (of? : ν → Option α) : Prop where
  of_spells : ∀ {expr : ν} {s t : List UInt8}, spells expr s t → Ends t → s.length ≤ bound →
    (read s).toOption = (of? expr).map (·, t)
  spells_of_ok : ∀ {s t : List UInt8} {a : α}, read s = .ok (a, t) → ∃ expr, spells expr s t

def SpellsBehindKey (expr : Expr) (s t : List UInt8) : Prop :=
  ∃ u, Behind s (colon :: u) ∧ Spells expr u t

section

variable {α β σ : Type} {bound : Nat}

theorem Reads.map {ν : Type} {spells : ν → List UInt8 → List UInt8 → Prop}
    {read : List UInt8 → Read α} {of? : ν → Option α} (h : Reads spells bound read of?)
    (f : α → β) :
    Reads spells bound (fun s => (read s).map fun pair => (f pair.1, pair.2))
      fun expr => (of? expr).map f where
  of_spells := by
    intro expr s t spelled ends bounded
    rw [toOption_map, h.of_spells spelled ends bounded]
    cases of? expr with
    | none => rfl
    | some a => rfl
  spells_of_ok := by
    intro s t b mapped
    obtain ⟨pair, result, same⟩ := map_eq_ok mapped
    cases same
    exact h.spells_of_ok result

theorem Reads.refused {ν : Type} (spells : ν → List UInt8 → List UInt8 → Prop) (bound : Nat)
    (stop : List UInt8 → Stop) :
    Reads spells bound (fun s => (.error (stop s) : Read α)) fun _ => none where
  of_spells := fun _ _ _ => rfl
  spells_of_ok := by
    intro s t a read
    cases read

theorem Reads.congr {ν : Type} {spells : ν → List UInt8 → List UInt8 → Prop}
    {read read' : List UInt8 → Read α} {of? of?' : ν → Option α} (h : Reads spells bound read of?)
    (sameRead : ∀ s, read' s = read s) (sameValue : ∀ expr, of?' expr = of? expr) :
    Reads spells bound read' of?' := by
  rw [funext sameRead, funext sameValue]
  exact h

/-- Behind its key a value is read once the colon is read. -/
theorem Reads.behindColon {read : List UInt8 → Read α} {of? : Expr → Option α}
    (h : Reads Spells bound read of?) :
    Reads SpellsBehindKey bound (fun s => Except.bind (skipColon s) read) of? where
  of_spells := by
    rintro expr s t ⟨u, middle, spelled⟩ ends bounded
    have shorter := middle.length_le
    rw [List.length_cons] at shorter
    change (Except.bind (skipColon s) read).toOption = _
    rw [skipColon_eq_ok.2 middle]
    exact h.of_spells spelled ends (by omega)
  spells_of_ok := by
    intro s t a read
    obtain ⟨u, middle, read⟩ := bind_eq_ok read
    obtain ⟨expr, spelled⟩ := h.spells_of_ok read
    exact ⟨expr, u, skipColon_eq_ok.1 middle, spelled⟩

/-! ## Items -/

variable {item : σ → List UInt8 → Read σ} {take : σ → Expr → Option σ}

theorem foldItems_spelled (reads : ∀ state, Reads Spells bound (item state) (take state))
    {fuel : Nat} {first : Bool} {items : List Expr} {s t : List UInt8}
    (h : SpellsItems first items s t) (state : σ) (bounded : s.length ≤ bound)
    (enough : items.length < fuel) :
    (foldItems item fuel first state s).toOption = (items.foldlM take state).map (·, t) := by
  -- on the items; each step reads one of them and leaves a shorter text for the rest
  induction items generalizing fuel first state s with
  | nil =>
    obtain ⟨fuel, rfl⟩ : ∃ k, fuel = k + 1 := ⟨fuel - 1, by omega⟩
    cases h with
    | nil h =>
      unfold foldItems
      rw [nextItem_closed h]
      rfl
  | cons expr items ih =>
    obtain ⟨fuel, rfl⟩ : ∃ k, fuel = k + 1 := ⟨fuel - 1, by omega⟩
    cases h with
    | @cons _ _ u v _ _ _ h head tail =>
      have shorter := h.length_le
      have consumed := head.length_lt
      obtain ⟨b, rest, begins, starts, head⟩ := head.opening
      have visible := (behind_of_skipSpace begins).length_le
      have step := (reads state).of_spells head tail.ends (by omega)
      unfold foldItems
      rw [nextItem_next h begins (opening_of_starts starts), List.foldlM_cons]
      change (Except.bind (item state (b :: rest)) fun pair =>
        foldItems item fuel false pair.1 pair.2).toOption = _
      rw [toOption_bind, step]
      cases take state expr with
      | none => rfl
      | some state' => exact ih tail state' (by omega) (by simpa using enough)

theorem items_of_foldItems (reads : ∀ state, Reads Spells bound (item state) (take state))
    {fuel : Nat} {first : Bool} {state state' : σ} {s t : List UInt8}
    (h : foldItems item fuel first state s = .ok (state', t)) :
    ∃ items, SpellsItems first items s t := by
  -- on the fuel, since nothing is known of the items yet
  induction fuel generalizing first state s with
  | zero => cases h
  | succ fuel ih =>
    obtain ⟨entry, next, h⟩ := bind_eq_ok h
    rcases nextItem_cases next with ⟨rest, rfl, closing⟩ | ⟨u, v, rfl, separated, behind⟩
    · cases h
      exact ⟨[], .nil closing⟩
    · obtain ⟨⟨between, w⟩, read, others⟩ := bind_eq_ok h
      obtain ⟨expr, spelled⟩ := (reads state).spells_of_ok read
      obtain ⟨items, tail⟩ := ih others
      exact ⟨expr :: items, .cons separated (spelled.behind behind) tail⟩

/-! ## Members -/

variable {member : σ → String → List UInt8 → Read σ} {put : σ → String → Expr → Option σ}

def putMember (put : σ → String → Expr → Option σ) (state : σ) (m : List UInt8 × Expr) :
    Option σ :=
  (tokenText? m.1).bind fun key => put state key m.2

theorem foldMembers_spelled
    (reads : ∀ state key, Reads SpellsBehindKey bound (member state key) (put state key))
    {fuel : Nat} {first : Bool} {members : List (List UInt8 × Expr)} {s t : List UInt8}
    (h : SpellsMembers first members s t) (state : σ) (bounded : s.length ≤ bound)
    (enough : members.length < fuel) :
    (foldMembers member fuel first state s).toOption =
      (members.foldlM (putMember put) state).map (·, t) := by
  induction members generalizing fuel first state s with
  | nil =>
    obtain ⟨fuel, rfl⟩ : ∃ k, fuel = k + 1 := ⟨fuel - 1, by omega⟩
    cases h with
    | nil h =>
      unfold foldMembers
      rw [nextMember_closed h]
      rfl
  | cons m members ih =>
    obtain ⟨fuel, rfl⟩ : ∃ k, fuel = k + 1 := ⟨fuel - 1, by omega⟩
    cases h with
    | @cons _ _ u v w x _ token expr _ h key isToken middle head tail =>
      have shorter := h.length_le
      have behindKey := key.length_le
      have behindColon := middle.length_le
      have consumed := head.length_lt
      simp only [List.length_cons, List.length_append] at behindKey behindColon
      unfold foldMembers
      rw [nextMember_next h key, List.foldlM_cons]
      change (Except.bind (readString (token ++ quote :: v)) fun text =>
        Except.bind (member state text.1 text.2) fun pair =>
          foldMembers member fuel false pair.1 pair.2).toOption = _
      rw [toOption_bind, toOption_readString isToken, putMember]
      cases tokenText? token with
      | none => rfl
      | some text =>
        have step := (reads state text).of_spells ⟨w, middle, head⟩ tail.ends (by omega)
        change (Except.bind (member state text v) fun pair =>
          foldMembers member fuel false pair.1 pair.2).toOption = _
        rw [toOption_bind, step]
        change _ = ((put state text expr).bind fun state' =>
          members.foldlM (putMember put) state').map _
        cases put state text expr with
        | none => rfl
        | some state' => exact ih tail state' (by omega) (by simpa using enough)

theorem members_of_foldMembers
    (reads : ∀ state key, Reads SpellsBehindKey bound (member state key) (put state key))
    {fuel : Nat} {first : Bool} {state state' : σ} {s t : List UInt8}
    (h : foldMembers member fuel first state s = .ok (state', t)) :
    ∃ members, SpellsMembers first members s t := by
  induction fuel generalizing first state s with
  | zero => cases h
  | succ fuel ih =>
    obtain ⟨entry, next, h⟩ := bind_eq_ok h
    rcases nextMember_cases next with ⟨rest, rfl, closing⟩ | ⟨u, v, rfl, separated, behind⟩
    · cases h
      exact ⟨[], .nil closing⟩
    · obtain ⟨⟨key, w⟩, string, behindKey⟩ := bind_eq_ok h
      obtain ⟨⟨between, x⟩, read, others⟩ := bind_eq_ok behindKey
      obtain ⟨token, rfl, spells⟩ := text_of_readString string
      obtain ⟨expr, y, middle, spelled⟩ := (reads state key).spells_of_ok read
      obtain ⟨members, tail⟩ := ih others
      exact ⟨(token, expr) :: members,
        .cons separated behind spells.token middle spelled tail⟩

end

end DiveTable.Json
