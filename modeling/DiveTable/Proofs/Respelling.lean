import DiveTable.Proofs.MemberOrder
import DiveTable.Proofs.RecordLayout

/-! # Other spellings of a value

Strings may be spelled in another way, and members of different keys may stand in another order.
Members of a record may stand in any order, and members that name none of its fields may come and
go. None of this changes what is read. -/
namespace DiveTable.Json

def Named (name : String) (m : List UInt8 × Expr) : Prop := SpellsText name.toList m.1

def DistinctKeys (members : List (List UInt8 × Expr)) : Prop :=
  members.Pairwise fun m m' => ∀ name, Named name m → ¬Named name m'

/-- A value with strings and keys spelled in another way, and members of different keys in another
order, at any places and in any combination. -/
inductive Respelled : Expr → Expr → Prop
  | refl (expr : Expr) : Respelled expr expr
  | trans {a b c : Expr} (h : Respelled a b) (h' : Respelled b c) : Respelled a c
  | string {text : List Char} {raw raw' : List UInt8} (h : SpellsText text raw)
    (h' : SpellsText text raw') : Respelled (.string raw) (.string raw')
  | item {a b : Expr} (front rest : List Expr) (h : Respelled a b) :
    Respelled (.array (front ++ a :: rest)) (.array (front ++ b :: rest))
  | key {name : String} {key key' : List UInt8} {value : Expr}
    (front rest : List (List UInt8 × Expr)) (h : Named name (key, value))
    (h' : Named name (key', value)) :
    Respelled (.object (front ++ (key, value) :: rest)) (.object (front ++ (key', value) :: rest))
  | value {key : List UInt8} {a b : Expr} (front rest : List (List UInt8 × Expr))
    (h : Respelled a b) :
    Respelled (.object (front ++ (key, a) :: rest)) (.object (front ++ (key, b) :: rest))
  | order {members members' : List (List UInt8 × Expr)} (distinct : DistinctKeys members)
    (h : members.Perm members') : Respelled (.object members) (.object members')

/-- The members of a record with keys spelled in another way, in any order, with others that name
none of its fields. `inside` tells how the value of a field may change. -/
inductive Rewritten (names : List String) (inside : String → Expr → Expr → Prop) :
    List (List UInt8 × Expr) → List (List UInt8 × Expr) → Prop
  | refl (members : List (List UInt8 × Expr)) : Rewritten names inside members members
  | trans {a b c : List (List UInt8 × Expr)} (h : Rewritten names inside a b)
    (h' : Rewritten names inside b c) : Rewritten names inside a c
  | key {name : String} {key key' : List UInt8} {value : Expr}
    (front rest : List (List UInt8 × Expr)) (h : Named name (key, value))
    (h' : Named name (key', value)) :
    Rewritten names inside (front ++ (key, value) :: rest) (front ++ (key', value) :: rest)
  | value {name : String} {key : List UInt8} {a b : Expr} (front rest : List (List UInt8 × Expr))
    (named : Named name (key, a)) (h : inside name a b) :
    Rewritten names inside (front ++ (key, a) :: rest) (front ++ (key, b) :: rest)
  | order {members members' : List (List UInt8 × Expr)} (h : members.Perm members') :
    Rewritten names inside members members'
  | insert {name : String} {m : List UInt8 × Expr} (front rest : List (List UInt8 × Expr))
    (named : Named name m) (unknown : name ∉ names) :
    Rewritten names inside (front ++ rest) (front ++ m :: rest)
  | remove {name : String} {m : List UInt8 × Expr} (front rest : List (List UInt8 × Expr))
    (named : Named name m) (unknown : name ∉ names) :
    Rewritten names inside (front ++ m :: rest) (front ++ rest)

/-! ## Members by the text of their keys -/

section

variable {σ : Type} {put : σ → String → Expr → Option σ}

theorem putMember_named {name : String} {m : List UInt8 × Expr} (h : Named name m) (state : σ) :
    putMember put state m = put state name m.2 := by
  rw [putMember, tokenText_eq_some.2 h]
  rfl

theorem putMember_none {m : List UInt8 × Expr} (h : tokenText? m.1 = none) (state : σ) :
    putMember put state m = none := by
  rw [putMember, h]
  rfl

theorem putMember_key {name : String} {key key' : List UInt8} {value : Expr}
    (h : Named name (key, value)) (h' : Named name (key', value)) (state : σ) :
    putMember put state (key, value) = putMember put state (key', value) := by
  rw [putMember_named h, putMember_named h']

theorem putMember_value {key : List UInt8} {a b : Expr}
    (same : ∀ state name, put state name a = put state name b) (state : σ) :
    putMember put state (key, a) = putMember put state (key, b) := by
  unfold putMember
  dsimp only
  cases tokenText? key with
  | none => rfl
  | some name => exact same state name

/-- Members may change places if what their keys name may. -/
theorem commute_putMember {m m' : List UInt8 × Expr}
    (named : ∀ name name', Named name m → Named name' m' → ∀ state,
      (put state name m.2).bind (put · name' m'.2) =
        (put state name' m'.2).bind (put · name m.2)) :
    Commute (putMember put) m m' := by
  intro state
  cases text : tokenText? m.1 with
  | none =>
    simp only [putMember_none text]
    cases putMember put state m' <;> rfl
  | some name =>
    have isNamed : Named name m := tokenText_eq_some.1 text
    cases text' : tokenText? m'.1 with
    | none =>
      simp only [putMember_none text']
      cases putMember put state m <;> rfl
    | some name' =>
      have isNamed' : Named name' m' := tokenText_eq_some.1 text'
      simp only [putMember_named isNamed, putMember_named isNamed']
      exact named name name' isNamed isNamed' state

end

/-! ## Values that are kept -/

theorem commute_keepMember (value? : Expr → Option Value) {m m' : List UInt8 × Expr}
    (distinct : ∀ name, Named name m → ¬Named name m') :
    Commute (putMember (keepMember value?)) m m' := by
  refine commute_putMember fun name name' named named' members => ?_
  have different : name ≠ name' := by
    rintro rfl
    exact distinct name named named'
  unfold keepMember
  cases value? m.2 with
  | none => cases value? m'.2 <;> rfl
  | some v =>
    cases value? m'.2 with
    | none => rfl
    | some v' => exact congrArg some (Members.insert_comm different v v' members)

theorem mapM_replace {α : Type} {of? : Expr → Option α} {a b : Expr} (same : of? a = of? b)
    (front rest : List Expr) : (front ++ a :: rest).mapM of? = (front ++ b :: rest).mapM of? := by
  rw [List.mapM_append, List.mapM_append, List.mapM_cons, List.mapM_cons, same]

theorem tokenText_same {text : List Char} {raw raw' : List UInt8} (h : SpellsText text raw)
    (h' : SpellsText text raw') : tokenText? raw = tokenText? raw' := by
  have spells : tokenText? raw = some (String.ofList text) :=
    tokenText_eq_some.2 (by rwa [String.toList_ofList])
  have spells' : tokenText? raw' = some (String.ofList text) :=
    tokenText_eq_some.2 (by rwa [String.toList_ofList])
  rw [spells, spells']

/-- However a value is spelled, the same value is kept. -/
theorem value_respelled {a b : Expr} (h : Respelled a b) (budget : Nat) :
    a.value? budget = b.value? budget := by
  induction h generalizing budget with
  | refl expr => rfl
  | trans _ _ ih ih' => exact (ih budget).trans (ih' budget)
  | string h h' =>
    unfold Expr.value?
    rw [tokenText_same h h']
  | item front rest _ ih =>
    cases budget with
    | zero => rfl
    | succ budget =>
      unfold Expr.value?
      rw [mapM_replace (ih budget)]
  | key front rest h h' =>
    cases budget with
    | zero => rfl
    | succ budget =>
      unfold Expr.value?
      rw [foldlM_replace (putMember_key h h')]
  | value front rest _ ih =>
    cases budget with
    | zero => rfl
    | succ budget =>
      unfold Expr.value?
      rw [foldlM_replace (putMember_value _)]
      intro members name
      rw [keepMember, keepMember, ih]
  | order distinct h =>
    cases budget with
    | zero => rfl
    | succ budget =>
      unfold Expr.value?
      rw [foldlM_perm h (distinct.imp fun different => commute_keepMember _ different)]

/-! ## Values of an expected type -/

/-- What is made of a value does not depend on its spelling. -/
def Settled {α : Type} (of? : Expr → Option α) : Prop :=
  ∀ {a b : Expr}, Respelled a b → of? a = of? b

section

variable {α : Type}

theorem settled_text : Settled Expr.text? := by
  intro a b h
  induction h with
  | trans _ _ ih ih' => exact ih.trans ih'
  | string h h' => exact tokenText_same h h'
  | refl | item | key | value | order => rfl

theorem settled_numeric (accept? : Number → Option α) : Settled (Expr.numeric? accept?) := by
  intro a b h
  induction h with
  | trans _ _ ih ih' => exact ih.trans ih'
  | refl | string | item | key | value | order => rfl

theorem settled_map {β : Type} {of? : Expr → Option α} (h : Settled of?) (f : α → β) :
    Settled fun expr => (of? expr).map f := by
  intro a b same
  dsimp only
  rw [h same]

theorem settled_optional {of? : Expr → Option α} (h : Settled of?) :
    Settled (Expr.optional? of?) := by
  intro a b same
  have inside := congrArg (Option.map some) (h same)
  induction same with
  | refl expr => rfl
  | trans first second ih ih' =>
    exact (ih (congrArg _ (h first))).trans (ih' (congrArg _ (h second)))
  | string | item | key | value | order => exact inside

theorem settled_values (budget : Nat) : Settled (Expr.values? budget) := by
  intro a b h
  induction h with
  | trans _ _ ih ih' => exact ih.trans ih'
  | item front rest h _ => exact mapM_replace (value_respelled h budget) front rest
  | refl | string | key | value | order => rfl

end

/-! ## Records -/

def Slot.Independent {σ : Type} (slot slot' : Slot σ) : Prop :=
  ∀ expr expr' update update', slot.update? expr = some update →
    slot'.update? expr' = some update' → ∀ draft,
      update (update' draft) = update' (update draft) ∧
        slot.isSet (update' draft) = slot.isSet draft ∧
          slot'.isSet (update draft) = slot'.isSet draft

theorem Slot.Independent.symm {σ : Type} {slot slot' : Slot σ} (h : slot.Independent slot') :
    slot'.Independent slot := by
  intro expr expr' update update' own other draft
  obtain ⟨both, kept, kept'⟩ := h expr' expr update' update other own draft
  exact ⟨both.symm, kept', kept⟩

def Layout.names {σ τ : Type} (layout : Layout σ τ) : List String := layout.slots.map Slot.name

structure Layout.Separate {σ τ : Type} (layout : Layout σ τ) : Prop where
  named : layout.names.Nodup
  sets : ∀ slot ∈ layout.slots, ∀ expr update, slot.update? expr = some update →
    ∀ draft, slot.isSet (update draft) = true
  independent : layout.slots.Pairwise Slot.Independent

namespace Layout

variable {σ τ : Type} {layout : Layout σ τ}

theorem putField_unknown {name : String} (h : name ∉ layout.names) (draft : σ) (expr : Expr) :
    layout.putField draft name expr = some draft := by
  have noSlot : layout.slots.find? (fun slot => slot.name == name) = none := by
    rw [List.find?_eq_none]
    intro slot mem same
    exact h (List.mem_map.2 ⟨slot, mem, beq_iff_eq.1 same⟩)
  rw [putField, noSlot]

theorem find_slot (separate : layout.Separate) {slot : Slot σ} (mem : slot ∈ layout.slots) :
    layout.slots.find? (fun other => other.name == slot.name) = some slot := by
  have distinct := List.pairwise_map.1 separate.named
  revert distinct mem
  generalize layout.slots = slots
  intro mem distinct
  induction slots with
  | nil => cases mem
  | cons first rest ih =>
    rw [List.pairwise_cons] at distinct
    rcases List.mem_cons.1 mem with rfl | later
    · exact List.find?_cons_of_pos (beq_self_eq_true slot.name)
    · rw [List.find?_cons_of_neg (by simpa using distinct.1 slot later)]
      exact ih later distinct.2

theorem putField_slot (separate : layout.Separate) {slot : Slot σ} (mem : slot ∈ layout.slots)
    (draft : σ) (expr : Expr) :
    layout.putField draft slot.name expr =
      if slot.isSet draft then none else (slot.update? expr).map (· draft) := by
  rw [putField, find_slot separate mem]

/-- A name is that of a field or of none. -/
theorem slot_or_unknown (layout : Layout σ τ) (name : String) :
    (∃ slot ∈ layout.slots, slot.name = name) ∨ name ∉ layout.names := by
  by_cases known : name ∈ layout.names
  · exact .inl (List.mem_map.1 known)
  · exact .inr known

theorem putField_twice (separate : layout.Separate) {slot : Slot σ} (mem : slot ∈ layout.slots)
    (draft : σ) (expr expr' : Expr) :
    (layout.putField draft slot.name expr).bind (layout.putField · slot.name expr') = none := by
  rw [putField_slot separate mem]
  by_cases set : slot.isSet draft = true
  · rw [if_pos set]
    rfl
  · rw [if_neg set]
    cases updated : slot.update? expr with
    | none => rfl
    | some update =>
      have nowSet := separate.sets slot mem expr update updated draft
      change layout.putField (update draft) slot.name expr' = none
      rw [putField_slot separate mem, if_pos nowSet]

theorem putField_refused (separate : layout.Separate) {slot : Slot σ} (mem : slot ∈ layout.slots)
    {expr : Expr} (h : slot.update? expr = none) (draft : σ) :
    layout.putField draft slot.name expr = none := by
  rw [putField_slot separate mem, h]
  split <;> rfl

theorem putField_set (separate : layout.Separate) {slot : Slot σ} (mem : slot ∈ layout.slots)
    {draft : σ} (h : slot.isSet draft = true) (expr : Expr) :
    layout.putField draft slot.name expr = none :=
  (putField_slot separate mem draft expr).trans (if_pos h)

theorem putField_unset (separate : layout.Separate) {slot : Slot σ} (mem : slot ∈ layout.slots)
    {draft : σ} (h : ¬slot.isSet draft = true) {expr : Expr} {update : σ → σ}
    (updated : slot.update? expr = some update) :
    layout.putField draft slot.name expr = some (update draft) := by
  rw [putField_slot separate mem, if_neg h, updated]
  rfl

theorem putField_independent (separate : layout.Separate) {slot slot' : Slot σ}
    (mem : slot ∈ layout.slots) (mem' : slot' ∈ layout.slots) (h : slot.Independent slot')
    (draft : σ) (expr expr' : Expr) :
    (layout.putField draft slot.name expr).bind (layout.putField · slot'.name expr') =
      (layout.putField draft slot'.name expr').bind (layout.putField · slot.name expr) := by
  -- what matters is which of the two fields is set already
  cases updated : slot.update? expr with
  | none =>
    simp only [putField_refused separate mem updated]
    exact (Option.bind_fun_none _).symm
  | some update =>
    cases updated' : slot'.update? expr' with
    | none =>
      simp only [putField_refused separate mem' updated']
      exact Option.bind_fun_none _
    | some update' =>
      obtain ⟨both, kept, kept'⟩ := h expr expr' update update' updated updated' draft
      by_cases set : slot.isSet draft = true
      · rw [putField_set separate mem set]
        by_cases set' : slot'.isSet draft = true
        · rw [putField_set separate mem' set']
          rfl
        · rw [putField_unset separate mem' set' updated']
          exact (putField_set separate mem (kept.trans set) expr).symm
      · rw [putField_unset separate mem set updated]
        by_cases set' : slot'.isSet draft = true
        · rw [putField_set separate mem' set']
          exact putField_set separate mem' (kept'.trans set') expr'
        · rw [putField_unset separate mem' set' updated']
          have first := putField_unset separate mem' (by rwa [kept']) updated'
          have second := putField_unset separate mem (by rwa [kept]) updated
          exact first.trans ((congrArg some both.symm).trans second.symm)

theorem independent_of_ne (separate : layout.Separate) {slot slot' : Slot σ}
    (mem : slot ∈ layout.slots) (mem' : slot' ∈ layout.slots) (different : slot ≠ slot') :
    slot.Independent slot' := by
  refine List.Pairwise.forall_of_forall_of_flip
    (R := fun slot slot' : Slot σ => slot ≠ slot' → slot.Independent slot') ?_ ?_ ?_ mem mem'
    different
  · intro slot _ different
    exact absurd rfl different
  · refine separate.independent.imp ?_
    intro slot slot' h _
    exact h
  · refine separate.independent.imp ?_
    intro slot slot' h _
    exact h.symm

/-- Members of a record may always change places. -/
theorem putField_comm (separate : layout.Separate) (draft : σ) (name name' : String)
    (expr expr' : Expr) :
    (layout.putField draft name expr).bind (layout.putField · name' expr') =
      (layout.putField draft name' expr').bind (layout.putField · name expr) := by
  rcases slot_or_unknown layout name with ⟨slot, mem, rfl⟩ | unknown
  · rcases slot_or_unknown layout name' with ⟨slot', mem', rfl⟩ | unknown'
    · by_cases same : slot = slot'
      · subst same
        rw [putField_twice separate mem, putField_twice separate mem]
      · have independent := independent_of_ne separate mem mem' same
        exact putField_independent separate mem mem' independent draft expr expr'
    · simp only [putField_unknown unknown']
      exact Option.bind_fun_some _
  · simp only [putField_unknown unknown]
    exact (Option.bind_fun_some _).symm

theorem commute_putField (separate : layout.Separate) (m m' : List UInt8 × Expr) :
    Commute (putMember layout.putField) m m' :=
  commute_putMember fun name name' _ _ draft => putField_comm separate draft name name' m.2 m'.2

theorem foldlM_order (separate : layout.Separate) {members members' : List (List UInt8 × Expr)}
    (h : members.Perm members') (draft : σ) :
    members.foldlM (putMember layout.putField) draft =
      members'.foldlM (putMember layout.putField) draft := by
  refine foldlM_perm h ?_ draft
  exact List.pairwise_of_forall fun m m' => commute_putField separate m m'

theorem putField_settled (separate : layout.Separate) {name : String} {a b : Expr}
    (same : ∀ slot ∈ layout.slots, slot.name = name → slot.update? a = slot.update? b) (draft : σ) :
    layout.putField draft name a = layout.putField draft name b := by
  rcases slot_or_unknown layout name with ⟨slot, mem, rfl⟩ | unknown
  · rw [putField_slot separate mem, putField_slot separate mem, same slot mem rfl]
  · rw [putField_unknown unknown, putField_unknown unknown]

theorem putMember_unknown {name : String} {m : List UInt8 × Expr} (named : Named name m)
    (unknown : name ∉ layout.names) (draft : σ) :
    putMember layout.putField draft m = some draft := by
  rw [putMember_named named, putField_unknown unknown]

theorem foldlM_rewritten (separate : layout.Separate) {inside : String → Expr → Expr → Prop}
    (settled : ∀ slot ∈ layout.slots, ∀ a b, inside slot.name a b →
      slot.update? a = slot.update? b) {members members' : List (List UInt8 × Expr)}
    (h : Rewritten layout.names inside members members') (draft : σ) :
    members.foldlM (putMember layout.putField) draft =
      members'.foldlM (putMember layout.putField) draft := by
  -- on how the members were rewritten; no way of it changes what the record becomes
  induction h generalizing draft with
  | refl members => rfl
  | trans _ _ ih ih' => exact (ih draft).trans (ih' draft)
  | key front rest h h' => exact foldlM_replace (putMember_key h h') front rest draft
  | @value name key a b front rest named h =>
    refine foldlM_replace (fun draft => ?_) front rest draft
    have named' : Named name (key, b) := named
    rw [putMember_named named, putMember_named named']
    refine putField_settled separate (fun slot mem same => ?_) draft
    exact settled slot mem a b (same ▸ h)
  | order h => exact foldlM_order separate h draft
  | insert front rest named unknown =>
    exact (foldlM_leave_out (putMember_unknown named unknown) front rest draft).symm
  | remove front rest named unknown =>
    exact foldlM_leave_out (putMember_unknown named unknown) front rest draft

theorem ofMembers_rewritten (separate : layout.Separate) {inside : String → Expr → Expr → Prop}
    (settled : ∀ slot ∈ layout.slots, ∀ a b, inside slot.name a b →
      slot.update? a = slot.update? b) {members members' : List (List UInt8 × Expr)}
    (h : Rewritten layout.names inside members members') :
    layout.ofMembers? members = layout.ofMembers? members' :=
  congrArg (Option.bind · layout.complete?) (foldlM_rewritten separate settled h layout.empty)

theorem ofItems_replace {slots : List (Slot σ)} {a b : Expr}
    (settled : ∀ slot ∈ slots, slot.update? a = slot.update? b) (front rest : List Expr)
    (draft : σ) :
    layout.ofItems? slots draft (front ++ a :: rest) =
      layout.ofItems? slots draft (front ++ b :: rest) := by
  induction slots generalizing front draft with
  | nil => cases front <;> rfl
  | cons slot slots ih =>
    have later := fun slot mem => settled slot (List.mem_cons_of_mem _ mem)
    cases front with
    | nil =>
      change (slot.update? a).bind _ = (slot.update? b).bind _
      rw [settled slot List.mem_cons_self]
    | cons expr front =>
      change (slot.update? expr).bind _ = (slot.update? expr).bind _
      exact congrArg _ (funext fun update => ih later front (update draft))

/-- A record of fields that do not depend on the spelling does not depend on it either. -/
theorem settled_of (separate : layout.Separate)
    (settled : ∀ slot ∈ layout.slots, Settled slot.update?) : Settled layout.of? := by
  intro a b h
  induction h with
  | trans _ _ ih ih' => exact ih.trans ih'
  | item front rest h _ =>
    exact ofItems_replace (fun slot mem => settled slot mem h) front rest layout.empty
  | key front rest h h' =>
    exact congrArg (Option.bind · layout.complete?)
      (foldlM_replace (putMember_key h h') front rest layout.empty)
  | value front rest h _ =>
    refine congrArg (Option.bind · layout.complete?)
      (foldlM_replace (putMember_value fun draft name => ?_) front rest layout.empty)
    exact putField_settled separate (fun slot mem _ => settled slot mem h) draft
  | order _ h =>
    exact congrArg (Option.bind · layout.complete?) (foldlM_order separate h layout.empty)
  | refl | string => rfl

/-! ## Fields that come twice, and fields of a wrong type -/

theorem ofMembers_twice (separate : layout.Separate) {name : String} (known : name ∈ layout.names)
    {members : List (List UInt8 × Expr)} {m m' : List UInt8 × Expr}
    (h : [m, m'].Sublist members) (named : Named name m) (named' : Named name m') :
    layout.ofMembers? members = none := by
  obtain ⟨slot, mem, rfl⟩ := List.mem_map.1 known
  obtain ⟨rest, order⟩ := h.exists_perm_append
  have first : (m :: m' :: rest).foldlM (putMember layout.putField) layout.empty = none := by
    simp only [List.foldlM_cons, putMember_named named, putMember_named named',
      Option.bind_eq_bind]
    rw [← Option.bind_assoc, putField_twice separate mem]
    rfl
  rw [ofMembers?, foldlM_order separate order]
  exact congrArg (Option.bind · layout.complete?) first

theorem ofMembers_spoiled (separate : layout.Separate) {slot : Slot σ} (mem : slot ∈ layout.slots)
    {members : List (List UInt8 × Expr)} {m : List UInt8 × Expr} (h : m ∈ members)
    (named : Named slot.name m) (refused : slot.update? m.2 = none) :
    layout.ofMembers? members = none := by
  have spoils (draft : σ) : putMember layout.putField draft m = none := by
    rw [putMember_named named, putField_refused separate mem refused]
  rw [ofMembers?, foldlM_spoiled spoils h]
  rfl

theorem ofItems_spoiled {slots : List (Slot σ)} {items : List Expr} {i : Nat} {slot : Slot σ}
    {expr : Expr} (h : slots[i]? = some slot) (h' : items[i]? = some expr)
    (refused : slot.update? expr = none) (draft : σ) :
    layout.ofItems? slots draft items = none := by
  induction slots generalizing items i draft with
  | nil => cases h
  | cons first slots ih =>
    cases items with
    | nil => cases h'
    | cons item items =>
      unfold ofItems?
      cases i with
      | zero =>
        cases h
        cases h'
        rw [refused]
        rfl
      | succ i =>
        cases first.update? item with
        | none => rfl
        | some update => exact ih h h' (update draft)

end Layout

end DiveTable.Json
