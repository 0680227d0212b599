import DiveTable.Proofs.RecordValues

/-! # The two forms of a record

A record is written as an object, or as a list of its fields in their order that may end before the
fields do. Main statements: an object and the list of its fields are read as the same record,
`Layout.of_otherForm`, and kept as values with the same fields, `alike_of_otherForm`. -/
namespace DiveTable.Json

/-- A field of a record, and what in a list stands for an object that has no such member. -/
structure FieldForm where
  name : String
  default : Expr → Prop

def required : Expr → Prop := fun _ => False

/-- The members of an object as a list, each in the place of its field. In the place of a field
without a member stands the default, and where no more members follow the list may end. -/
inductive Listed : List FieldForm → List (List UInt8 × Expr) → List Expr → Prop
  | done (fields : List FieldForm) : Listed fields [] []
  | member {field : FieldForm} {fields : List FieldForm} {front rest : List (List UInt8 × Expr)}
    {m : List UInt8 × Expr} {items : List Expr} (named : Named field.name m)
    (tail : Listed fields (front ++ rest) items) :
    Listed (field :: fields) (front ++ m :: rest) (m.2 :: items)
  | default {field : FieldForm} {fields : List FieldForm} {members : List (List UInt8 × Expr)}
    {items : List Expr} {expr : Expr} (is : field.default expr)
    (tail : Listed fields members items) : Listed (field :: fields) members (expr :: items)

/-- Another form of a record: a list for an object, or an object with one more member, which names
no field and can be read. -/
inductive OtherForm (fields : List FieldForm) (readable : Expr → Prop) : Expr → Expr → Prop
  | listed {members : List (List UInt8 × Expr)} {items : List Expr}
    (h : Listed fields members items) : OtherForm fields readable (.object members) (.array items)
  | extended {name : String} {m : List UInt8 × Expr} (front rest : List (List UInt8 × Expr))
    (named : Named name m) (unknown : name ∉ fields.map FieldForm.name) (read : readable m.2) :
    OtherForm fields readable (.object (front ++ rest)) (.object (front ++ m :: rest))

theorem Listed.first {field : FieldForm} {fields : List FieldForm} {m : List UInt8 × Expr}
    {rest : List (List UInt8 × Expr)} {items : List Expr} (named : Named field.name m)
    (tail : Listed fields rest items) : Listed (field :: fields) (m :: rest) (m.2 :: items) :=
  @Listed.member field fields [] rest m items named tail

/-- Only fields have members. -/
theorem Listed.declared {fields : List FieldForm} {members : List (List UInt8 × Expr)}
    {items : List Expr} (h : Listed fields members items) :
    ∀ m ∈ members, ∃ field ∈ fields, Named field.name m := by
  induction h with
  | done => nofun
  | member named tail ih =>
    intro m mem
    rcases List.mem_append.1 mem with front | other
    · obtain ⟨field, declared, named⟩ := ih m (List.mem_append_left _ front)
      exact ⟨field, List.mem_cons_of_mem _ declared, named⟩
    · rcases List.mem_cons.1 other with rfl | rest
      · exact ⟨_, List.mem_cons_self, named⟩
      · obtain ⟨field, declared, named⟩ := ih m (List.mem_append_right _ rest)
        exact ⟨field, List.mem_cons_of_mem _ declared, named⟩
  | default is tail ih =>
    intro m mem
    obtain ⟨field, declared, named⟩ := ih m mem
    exact ⟨field, List.mem_cons_of_mem _ declared, named⟩

/-! ## Records that are read by their layout -/

namespace Layout

variable {σ τ : Type} {layout : Layout σ τ}

structure Takes (layout : Layout σ τ) (slot : Slot σ) (field : FieldForm) : Prop where
  name : slot.name = field.name
  unset : slot.isSet layout.empty = false
  idle : ∀ expr, field.default expr → ∃ update, slot.update? expr = some update ∧
    ∀ draft, slot.isSet draft = false → layout.complete? (update draft) = layout.complete? draft

/-- An update that makes no difference at the end makes none in front of other items. -/
theorem ofItems_idle {slot : Slot σ} {expr : Expr} {update : σ → σ}
    (updated : slot.update? expr = some update)
    (idle : ∀ draft, slot.isSet draft = false →
      layout.complete? (update draft) = layout.complete? draft)
    {slots : List (Slot σ)} (independent : ∀ other ∈ slots, slot.Independent other)
    (items : List Expr) (draft : σ) (unset : slot.isSet draft = false) :
    layout.ofItems? slots (update draft) items = layout.ofItems? slots draft items := by
  induction slots generalizing items draft with
  | nil =>
    cases items with
    | nil => exact idle draft unset
    | cons item items => rfl
  | cons first slots ih =>
    cases items with
    | nil => exact idle draft unset
    | cons item items =>
      rw [ofItems?, ofItems?]
      cases isLater : first.update? item with
      | none => rfl
      | some later =>
        obtain ⟨swap, kept, -⟩ :=
          independent first List.mem_cons_self expr item update later updated isLater draft
        show layout.ofItems? slots (later (update draft)) items = _
        rw [← swap]
        exact ih (fun other mem => independent other (List.mem_cons_of_mem _ mem)) items
          (later draft) (kept.trans unset)

theorem ofItems_listed (separate : layout.Separate) {slots : List (Slot σ)}
    {fields : List FieldForm} (takes : List.Forall₂ layout.Takes slots fields)
    (within : ∀ slot ∈ slots, slot ∈ layout.slots) (independent : slots.Pairwise Slot.Independent)
    {members : List (List UInt8 × Expr)} {items : List Expr} (h : Listed fields members items)
    (draft : σ) (unset : ∀ slot ∈ slots, ∀ expr update, slot.update? expr = some update →
      slot.isSet draft = false) :
    (members.foldlM (putMember layout.putField) draft).bind layout.complete? =
      layout.ofItems? slots draft items := by
  -- on the fields: a member might as well be the first, and a default is idle; what can be set at
  -- all is not set yet
  induction h generalizing slots draft with
  | done fields => cases takes <;> rfl
  | @member field fields front rest m items named tail ih =>
    cases takes with
    | @cons slot _ slots _ take takes =>
      obtain ⟨apart, later⟩ := List.pairwise_cons.1 independent
      have named' : Named slot.name m := by rwa [take.name]
      have order : (front ++ m :: rest).Perm (m :: (front ++ rest)) := List.perm_middle
      rw [foldlM_order separate order, List.foldlM_cons, putMember_named named',
        putField_slot separate (within slot List.mem_cons_self), ofItems?]
      cases updated : slot.update? m.2 with
      | none => split <;> rfl
      | some update =>
        rw [unset slot List.mem_cons_self m.2 update updated, if_neg Bool.false_ne_true]
        refine ih takes (fun other mem => within other (List.mem_cons_of_mem _ mem)) later
          (update draft) fun other mem expr update' updated' => ?_
        obtain ⟨-, -, kept⟩ := apart other mem m.2 expr update update' updated updated' draft
        exact kept.trans (unset other (List.mem_cons_of_mem _ mem) expr update' updated')
  | @default field fields members items expr is tail ih =>
    cases takes with
    | @cons slot _ slots _ take takes =>
      obtain ⟨apart, later⟩ := List.pairwise_cons.1 independent
      obtain ⟨update, updated, idle⟩ := take.idle expr is
      rw [ih takes (fun other mem => within other (List.mem_cons_of_mem _ mem)) later draft
        fun other mem => unset other (List.mem_cons_of_mem _ mem), ofItems?, updated]
      have first := unset slot List.mem_cons_self expr update updated
      exact (ofItems_idle updated idle apart items draft first).symm

theorem of_takes {slots : List (Slot σ)} {fields : List FieldForm}
    (takes : List.Forall₂ layout.Takes slots fields) :
    slots.map Slot.name = fields.map FieldForm.name ∧
      ∀ slot ∈ slots, slot.isSet layout.empty = false := by
  induction takes with
  | nil => exact ⟨rfl, nofun⟩
  | cons take _ ih =>
    rw [List.map_cons, List.map_cons, take.name, ih.1]
    exact ⟨rfl, List.forall_mem_cons.2 ⟨take.unset, ih.2⟩⟩

/-- A record is read alike in either form. -/
theorem of_otherForm (separate : layout.Separate) {fields : List FieldForm}
    (takes : List.Forall₂ layout.Takes layout.slots fields) {readable : Expr → Prop} {a b : Expr}
    (h : OtherForm fields readable a b) : layout.of? a = layout.of? b := by
  obtain ⟨names, unset⟩ := of_takes takes
  cases h with
  | listed h =>
    exact ofItems_listed separate takes (fun _ mem => mem) separate.independent h layout.empty
      fun slot mem _ _ _ => unset slot mem
  | extended front rest named unknown read =>
    have unknown' : _ ∉ layout.names := fun known => unknown (names ▸ known)
    have idle := putMember_unknown named unknown'
    exact congrArg (Option.bind · layout.complete?)
      (foldlM_leave_out idle front rest layout.empty).symm

/-- A record depends on a field as far as its slot does. -/
theorem of_same (separate : layout.Separate) {slot : Slot σ} {place : Nat}
    (isSlot : layout.slots[place]? = some slot) {written : Expr → Expr}
    (field : FieldIn slot.name place written) {a b : Expr} (same : slot.update? a = slot.update? b) :
    layout.of? (written a) = layout.of? (written b) := by
  have forth {a b : Expr} (same : slot.update? a = slot.update? b) {record : τ}
      (read : layout.of? (written a) = some record) : layout.of? (written b) = some record := by
    obtain ⟨draft, -, -, -, others⟩ := exists_draft separate isSlot field read
    rw [others b, ← same, ← others a, read]
  exact Option.ext fun record => ⟨forth same, forth same.symm⟩

/-- A record is not read if one of its fields is not. -/
theorem of_refused (separate : layout.Separate) {slot : Slot σ} {place : Nat}
    (isSlot : layout.slots[place]? = some slot) {written : Expr → Expr}
    (field : FieldIn slot.name place written) {expr : Expr} (refused : slot.update? expr = none) :
    layout.of? (written expr) = none := by
  apply Option.eq_none_iff_forall_ne_some.2
  intro record read
  obtain ⟨draft, update, updated, -⟩ := exists_draft separate isSlot field read
  rw [refused] at updated
  cases updated

theorem ofItems_long {slots : List (Slot σ)} {items : List Expr}
    (long : slots.length < items.length) (draft : σ) : layout.ofItems? slots draft items = none := by
  induction slots generalizing items draft with
  | nil =>
    cases items with
    | nil => cases long
    | cons item items => rfl
  | cons slot slots ih =>
    cases items with
    | nil => cases long
    | cons item items =>
      rw [ofItems?]
      cases slot.update? item with
      | none => rfl
      | some update => exact ih (Nat.lt_of_succ_lt_succ long) (update draft)

/-- A list that ends in front of a field that a record must have is not read. -/
theorem ofItems_short {slots : List (Slot σ)} (independent : slots.Pairwise Slot.Independent)
    {slot : Slot σ} {place : Nat} (isSlot : slots[place]? = some slot)
    (accepts : ∃ expr update, slot.update? expr = some update)
    (needed : ∀ draft, slot.isSet draft = false → layout.complete? draft = none)
    {items : List Expr} (short : items.length ≤ place) {draft : σ}
    (unset : slot.isSet draft = false) : layout.ofItems? slots draft items = none := by
  apply Option.eq_none_iff_forall_ne_some.2
  intro record read
  obtain ⟨draft', unset', completed⟩ :=
    exists_unset_of_short independent isSlot accepts short unset read
  rw [needed draft' unset'] at completed
  cases completed

end Layout

/-! ## Records that are kept as values -/

/-- What two records have for a field: the same, or the one nothing and the other its default. -/
inductive SameField (of? : Expr → Option Value) (field : FieldForm) :
    Option Value → Option Value → Prop
  | same (v : Option Value) : SameField of? field v v
  | default {expr : Expr} {v : Value} (is : field.default expr) (read : of? expr = some v) :
    SameField of? field none (some v)

theorem SameField.eq_of_required {of? : Expr → Option Value} {name : String} {v v' : Option Value}
    (h : SameField of? ⟨name, required⟩ v v') : v = v' := by
  cases h with
  | same => rfl
  | default is read => exact is.elim

structure SameFields (of? : Expr → Option Value) (fields : List FieldForm) (v v' : Value) :
    Prop where
  isRecord : v.IsRecord fields.length
  isRecord' : v'.IsRecord fields.length
  each : ∀ (i : Nat) (field : FieldForm), fields[i]? = some field →
    SameField of? field (v.field? field.name i) (v'.field? field.name i)

inductive AlikeRecords (of? : Expr → Option Value) (fields : List FieldForm) :
    Option Value → Option Value → Prop
  | unread : AlikeRecords of? fields none none
  | read {v v' : Value} (h : SameFields of? fields v v') :
    AlikeRecords of? fields (some v) (some v')

section

variable {of? : Expr → Option Value} {name : String}

/-- Members put behind others keep the same as far as those do. -/
theorem foldlM_keep_same {members : List (List UInt8 × Expr)} {start start' kept : Members}
    (same : ∀ other, other ≠ name → start.lookup other = start'.lookup other)
    (h : members.foldlM (putMember (keepMember of?)) start = some kept) :
    ∃ kept', members.foldlM (putMember (keepMember of?)) start' = some kept' ∧
      ∀ other, other ≠ name → kept.lookup other = kept'.lookup other := by
  induction members generalizing start start' with
  | nil =>
    cases h
    exact ⟨start', rfl, same⟩
  | cons m members ih =>
    rw [List.foldlM_cons] at h
    obtain ⟨middle, put, later⟩ := Option.bind_eq_some_iff.1 h
    obtain ⟨key, named, keeps⟩ := putMember_eq_some put
    obtain ⟨v, read, lookup⟩ := lookup_keepMember keeps
    have keeps' : keepMember of? start' key m.2 = some (start'.insert key v) := by
      rw [keepMember, read]
      rfl
    have middles (other : String) (different : other ≠ name) :
        middle.lookup other = (start'.insert key v).lookup other := by
      rw [lookup, Members.lookup_insert, same other different]
    obtain ⟨kept', others, same'⟩ := ih middles later
    refine ⟨kept', ?_, same'⟩
    rw [List.foldlM_cons, putMember_named named, keeps']
    exact others

/-- Without one of its members an object keeps the others. -/
theorem foldlM_without {m : List UInt8 × Expr} (named : Named name m)
    {front rest : List (List UInt8 × Expr)} {start kept : Members}
    (h : (front ++ m :: rest).foldlM (putMember (keepMember of?)) start = some kept) :
    ∃ v kept', of? m.2 = some v ∧
      (front ++ rest).foldlM (putMember (keepMember of?)) start = some kept' ∧
      ∀ other, other ≠ name → kept.lookup other = kept'.lookup other := by
  rw [List.foldlM_append] at h
  obtain ⟨before, first, h⟩ := Option.bind_eq_some_iff.1 h
  rw [List.foldlM_cons, putMember_named named] at h
  obtain ⟨middle, put, later⟩ := Option.bind_eq_some_iff.1 h
  obtain ⟨v, read, lookup⟩ := lookup_keepMember put
  have middles (other : String) (different : other ≠ name) :
      middle.lookup other = before.lookup other := (lookup other).trans (if_neg different)
  obtain ⟨kept', others, same⟩ := foldlM_keep_same middles later
  refine ⟨v, kept', read, ?_, same⟩
  rw [List.foldlM_append, first]
  exact others

/-- With one more member, which can be read, an object keeps what it has. -/
theorem foldlM_with {m : List UInt8 × Expr} (named : Named name m) {v : Value}
    (read : of? m.2 = some v) {front rest : List (List UInt8 × Expr)} {start kept : Members}
    (h : (front ++ rest).foldlM (putMember (keepMember of?)) start = some kept) :
    ∃ kept', (front ++ m :: rest).foldlM (putMember (keepMember of?)) start = some kept' ∧
      ∀ other, other ≠ name → kept.lookup other = kept'.lookup other := by
  rw [List.foldlM_append] at h
  obtain ⟨before, first, later⟩ := Option.bind_eq_some_iff.1 h
  have keeps : keepMember of? before name m.2 = some (before.insert name v) := by
    rw [keepMember, read]
    rfl
  have middles (other : String) (different : other ≠ name) :
      before.lookup other = (before.insert name v).lookup other := by
    rw [Members.lookup_insert, if_neg different]
  obtain ⟨kept', others, same⟩ := foldlM_keep_same middles later
  refine ⟨kept', ?_, same⟩
  rw [List.foldlM_append, first, Option.bind_eq_bind, Option.bind_some, List.foldlM_cons,
    putMember_named named, keeps]
  exact others

end

section

variable {of? : Expr → Option Value}

theorem Listed.unnamed {fields : List FieldForm} {members : List (List UInt8 × Expr)}
    {items : List Expr} {name : String} (h : Listed fields members items)
    (fresh : name ∉ fields.map FieldForm.name) : ∀ m ∈ members, ¬Named name m := by
  intro m mem named
  obtain ⟨other, declared, named'⟩ := h.declared m mem
  rw [named_unique named named'] at fresh
  exact fresh (List.mem_map_of_mem declared)

/-- An object that is read is read as the list of its fields is, and has the same fields. -/
theorem values_of_listed {fields : List FieldForm} (names : (fields.map FieldForm.name).Nodup)
    (readable : ∀ field ∈ fields, ∀ expr, field.default expr → ∃ v, of? expr = some v)
    {members : List (List UInt8 × Expr)} {items : List Expr} (h : Listed fields members items)
    {kept : Members} (folded : members.foldlM (putMember (keepMember of?)) [] = some kept) :
    ∃ values, items.mapM of? = some values ∧ values.length ≤ fields.length ∧
      ∀ (i : Nat) (field : FieldForm), fields[i]? = some field →
        SameField of? field (kept.lookup field.name) values[i]? := by
  induction h generalizing kept with
  | done fields =>
    cases folded
    exact ⟨[], rfl, Nat.zero_le _, fun i field _ => .same none⟩
  | @member field fields front rest m items named tail ih =>
    obtain ⟨fresh, names⟩ := List.nodup_cons.1 names
    have readable' : ∀ field ∈ fields, ∀ expr, field.default expr → ∃ v, of? expr = some v :=
      fun field mem => readable field (List.mem_cons_of_mem _ mem)
    have last : ∀ m' ∈ rest, ¬Named field.name m' := fun m' mem =>
      tail.unnamed fresh m' (List.mem_append_right _ mem)
    obtain ⟨v, kept', read, others, same⟩ := foldlM_without named folded
    obtain ⟨values, each, short, fit⟩ := ih names readable' others
    obtain ⟨w, read', found⟩ := lookup_last folded named last
    refine ⟨v :: values, ?_, Nat.succ_le_succ short, ?_⟩
    · rw [List.mapM_cons, read, each]
      rfl
    · rintro (_ | i) other place
      · cases place
        rw [found, ← read', read]
        exact .same _
      · have different : other.name ≠ field.name := by
          intro same
          exact fresh (same ▸ List.mem_map_of_mem (List.mem_of_getElem? place))
        rw [same other.name different]
        exact fit i other place
  | @default field fields members items expr is tail ih =>
    obtain ⟨fresh, names⟩ := List.nodup_cons.1 names
    obtain ⟨v, read⟩ := readable field List.mem_cons_self expr is
    obtain ⟨values, each, short, fit⟩ :=
      ih names (fun field mem => readable field (List.mem_cons_of_mem _ mem)) folded
    refine ⟨v :: values, ?_, Nat.succ_le_succ short, ?_⟩
    · rw [List.mapM_cons, read, each]
      rfl
    · rintro (_ | i) other place
      · cases place
        rw [lookup_unnamed folded (tail.unnamed fresh)]
        exact .default is read
      · exact fit i other place

/-- Where the list of its fields is read, an object is read too. -/
theorem members_of_listed {fields : List FieldForm} {members : List (List UInt8 × Expr)}
    {items : List Expr} (h : Listed fields members items) {values : List Value}
    (each : items.mapM of? = some values) :
    ∃ kept, members.foldlM (putMember (keepMember of?)) [] = some kept := by
  induction h generalizing values with
  | done fields => exact ⟨[], rfl⟩
  | member named tail ih =>
    rw [List.mapM_cons] at each
    obtain ⟨v, read, each⟩ := Option.bind_eq_some_iff.1 each
    obtain ⟨others, each, -⟩ := Option.bind_eq_some_iff.1 each
    obtain ⟨kept, folded⟩ := ih each
    obtain ⟨kept', folded', -⟩ := foldlM_with named read folded
    exact ⟨kept', folded'⟩
  | default is tail ih =>
    rw [List.mapM_cons] at each
    obtain ⟨w, -, each⟩ := Option.bind_eq_some_iff.1 each
    obtain ⟨others, each, -⟩ := Option.bind_eq_some_iff.1 each
    exact ih each

/-- A record that is kept as a value has the same fields in either form. -/
theorem alike_of_otherForm {budget : Nat} {fields : List FieldForm}
    (names : (fields.map FieldForm.name).Nodup)
    (readable : ∀ field ∈ fields, ∀ expr, field.default expr → ∃ v, expr.value? budget = some v)
    {a b : Expr} (h : OtherForm fields (fun expr => ∃ v, expr.value? budget = some v) a b) :
    AlikeRecords (Expr.value? budget) fields (a.value? (budget + 1)) (b.value? (budget + 1)) := by
  cases h with
  | @listed members items h =>
    rw [Expr.value?, Expr.value?]
    cases folded : members.foldlM (putMember (keepMember (Expr.value? budget))) [] with
    | none =>
      cases each : items.mapM (Expr.value? budget) with
      | none => exact .unread
      | some values =>
        obtain ⟨kept, folded'⟩ := members_of_listed h each
        rw [folded] at folded'
        cases folded'
    | some kept =>
      obtain ⟨values, each, short, fit⟩ := values_of_listed names readable h folded
      rw [each]
      exact .read ⟨trivial, short, fit⟩
  | @extended name m front rest named unknown read =>
    obtain ⟨v, read⟩ := read
    rw [Expr.value?, Expr.value?]
    cases folded : (front ++ rest).foldlM (putMember (keepMember (Expr.value? budget))) [] with
    | none =>
      cases folded' : (front ++ m :: rest).foldlM (putMember (keepMember (Expr.value? budget))) []
        with
      | none => exact .unread
      | some kept' =>
        obtain ⟨-, kept, -, others, -⟩ := foldlM_without named folded'
        rw [folded] at others
        cases others
    | some kept =>
      obtain ⟨kept', folded', same⟩ := foldlM_with named read folded
      rw [folded']
      refine .read ⟨trivial, trivial, fun i field place => ?_⟩
      have different : field.name ≠ name := by
        rintro rfl
        exact unknown (List.mem_map_of_mem (List.mem_of_getElem? place))
      show SameField _ field (kept.lookup field.name) (kept'.lookup field.name)
      rw [same field.name different]
      exact .same _

end

end DiveTable.Json
