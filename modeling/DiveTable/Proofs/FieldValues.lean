import DiveTable.Proofs.DocumentRewriting
import DiveTable.Proofs.SampleEvents

/-! # Fields as they are written

A field is written as a member of an object or as an item of a list. Its value in a sample is what
is written for it, and the samples of a dump are what is written for its list of samples. -/
namespace DiveTable

namespace Json

/-- What is written for a field: in an object the last member with its name, in a list the item at
its place. -/
inductive HasField (name : String) (place : Nat) : Expr → Expr → Prop
  | member {key : List UInt8} {expr : Expr} (front rest : List (List UInt8 × Expr))
    (named : Named name (key, expr)) (last : ∀ m ∈ rest, ¬Named name m) :
    HasField name place (.object (front ++ (key, expr) :: rest)) expr
  | item {items : List Expr} {expr : Expr} (h : items[place]? = some expr) :
    HasField name place (.array items) expr

inductive FieldIn (name : String) (place : Nat) : (Expr → Expr) → Prop
  | member {key : List UInt8} (front rest : List (List UInt8 × Expr))
    (named : SpellsText name.toList key) :
    FieldIn name place fun expr => .object (front ++ (key, expr) :: rest)
  | item {items : List Expr} (inside : place < items.length) :
    FieldIn name place fun expr => .array (items.set place expr)

theorem HasField.exists_fieldIn {name : String} {place : Nat} {record expr : Expr}
    (h : HasField name place record expr) :
    ∃ written, FieldIn name place written ∧ written expr = record := by
  cases h with
  | member front rest named last => exact ⟨_, .member front rest named, rfl⟩
  | @item items _ mem =>
    obtain ⟨inside, rfl⟩ := List.getElem?_eq_some_iff.1 mem
    exact ⟨_, .item inside, congrArg Expr.array (List.set_getElem_self inside)⟩

/-- Of the members with a name one is the last. -/
theorem HasField.exists_of_named {name : String} (place : Nat)
    {members : List (List UInt8 × Expr)} {m : List UInt8 × Expr} (mem : m ∈ members)
    (named : Named name m) : ∃ expr, HasField name place (.object members) expr := by
  induction members generalizing m with
  | nil => cases mem
  | cons first members ih =>
    by_cases later : ∃ m ∈ members, Named name m
    · obtain ⟨m, mem, named⟩ := later
      obtain ⟨expr, field⟩ := ih mem named
      cases field with
      | member front rest named last => exact ⟨expr, .member (first :: front) rest named last⟩
    · have none : ∀ m ∈ members, ¬Named name m := fun m mem named => later ⟨m, mem, named⟩
      rcases List.mem_cons.1 mem with rfl | inside
      · exact ⟨m.2, .member [] members named none⟩
      · exact absurd named (none m inside)

section

variable {of? : Expr → Option Value}

theorem mapM_getElem {items : List Expr} {values : List Value} (h : items.mapM of? = some values)
    {i : Nat} {expr : Expr} (mem : items[i]? = some expr) :
    ∃ v, of? expr = some v ∧ values[i]? = some v := by
  induction items generalizing values i with
  | nil => cases mem
  | cons first items ih =>
    rw [List.mapM_cons] at h
    obtain ⟨v, value, others⟩ := Option.bind_eq_some_iff.1 h
    obtain ⟨rest, read, same⟩ := Option.bind_eq_some_iff.1 others
    cases same
    cases i with
    | zero =>
      cases mem
      exact ⟨v, value, rfl⟩
    | succ i => exact ih read mem

theorem putMember_eq_some {σ : Type} {put : σ → String → Expr → Option σ} {state state' : σ}
    {m : List UInt8 × Expr} (h : putMember put state m = some state') :
    ∃ key, Named key m ∧ put state key m.2 = some state' := by
  obtain ⟨key, text, done⟩ := Option.bind_eq_some_iff.1 h
  exact ⟨key, tokenText_eq_some.1 text, done⟩

theorem lookup_keepMember {kept kept' : Members} {key : String} {expr : Expr}
    (h : keepMember of? kept key expr = some kept') :
    ∃ v, of? expr = some v ∧ ∀ name, kept'.lookup name =
      if name = key then some v else kept.lookup name := by
  obtain ⟨v, value, same⟩ := Option.map_eq_some_iff.1 h
  cases same
  exact ⟨v, value, fun name => Members.lookup_insert key name v kept⟩

/-- Members of other names leave a member as it is. -/
theorem lookup_unnamed {rest : List (List UInt8 × Expr)} {kept kept' : Members} {name : String}
    (h : rest.foldlM (putMember (keepMember of?)) kept = some kept')
    (unnamed : ∀ m ∈ rest, ¬Named name m) : kept'.lookup name = kept.lookup name := by
  induction rest generalizing kept with
  | nil =>
    cases h
    rfl
  | cons m rest ih =>
    rw [List.foldlM_cons] at h
    obtain ⟨middle, put, later⟩ := Option.bind_eq_some_iff.1 h
    obtain ⟨key, named, keeps⟩ := putMember_eq_some put
    obtain ⟨v, -, lookup⟩ := lookup_keepMember keeps
    have other : name ≠ key := by
      rintro rfl
      exact unnamed m List.mem_cons_self named
    rw [ih later fun m' mem => unnamed m' (List.mem_cons_of_mem _ mem), lookup, if_neg other]

theorem named_unique {name key : String} {m : List UInt8 × Expr} (h : Named name m)
    (h' : Named key m) : name = key :=
  Option.some.inj ((tokenText_eq_some.2 h).symm.trans (tokenText_eq_some.2 h'))

theorem lookup_last {front rest : List (List UInt8 × Expr)} {m : List UInt8 × Expr}
    {start kept : Members} {name : String}
    (h : (front ++ m :: rest).foldlM (putMember (keepMember of?)) start = some kept)
    (named : Named name m) (last : ∀ m' ∈ rest, ¬Named name m') :
    ∃ v, of? m.2 = some v ∧ kept.lookup name = some v := by
  rw [List.foldlM_append] at h
  obtain ⟨before, -, h⟩ := Option.bind_eq_some_iff.1 h
  rw [List.foldlM_cons] at h
  obtain ⟨behind, put, later⟩ := Option.bind_eq_some_iff.1 h
  obtain ⟨key, named', keeps⟩ := putMember_eq_some put
  obtain ⟨v, value, lookup⟩ := lookup_keepMember keeps
  rw [lookup_unnamed later last, lookup, if_pos (named_unique named named')]
  exact ⟨v, value, rfl⟩

end

/-- What is written for a field is what its value is read from. -/
theorem value_of_hasField {name : String} {place budget : Nat} {record expr : Expr} {v : Value}
    (field : HasField name place record expr) (h : record.value? budget = some v) :
    ∃ inner w, expr.value? inner = some w ∧ v.field? name place = some w := by
  cases field with
  | @member key _ front rest named last =>
    cases budget with
    | zero => cases h
    | succ budget =>
      rw [Expr.value?] at h
      obtain ⟨kept, read, same⟩ := Option.map_eq_some_iff.1 h
      cases same
      obtain ⟨w, value, found⟩ := lookup_last read named last
      exact ⟨budget, w, value, found⟩
  | item mem =>
    cases budget with
    | zero => cases h
    | succ budget =>
      rw [Expr.value?] at h
      obtain ⟨values, read, same⟩ := Option.map_eq_some_iff.1 h
      cases same
      obtain ⟨w, value, found⟩ := mapM_getElem read mem
      exact ⟨budget, w, value, found⟩

namespace Layout

variable {σ τ : Type} {layout : Layout σ τ} {slot : Slot σ} {expr : Expr} {record : τ}

/-- A member that names a field might as well be the last one, so the others are taken in without
it. -/
theorem ofMembers_middle (separate : layout.Separate) (mem : slot ∈ layout.slots)
    {m : List UInt8 × Expr} (named : Named slot.name m) (front rest : List (List UInt8 × Expr)) :
    layout.ofMembers? (front ++ m :: rest) =
      ((front ++ rest).foldlM (putMember layout.putField) layout.empty).bind fun draft =>
        if slot.isSet draft then none
        else (slot.update? m.2).bind fun update => layout.complete? (update draft) := by
  have order : (front ++ m :: rest).Perm ((front ++ rest) ++ [m]) :=
    List.perm_middle.trans (List.perm_append_singleton m (front ++ rest)).symm
  rw [ofMembers?, foldlM_order separate order, List.foldlM_append, Option.bind_eq_bind,
    Option.bind_assoc]
  refine congrArg _ (funext fun draft => ?_)
  have last : [m].foldlM (putMember layout.putField) draft =
      if slot.isSet draft then none else (slot.update? m.2).map (· draft) := by
    rw [List.foldlM_cons, putMember_named named, putField_slot separate mem]
    exact Option.bind_fun_some _
  rw [last]
  split
  · rfl
  · cases slot.update? m.2 <;> rfl

/-- What is written for a field is taken in once, and the rest of the record stays the same if
something else is written for it. -/
theorem ofMembers_named (separate : layout.Separate) (mem : slot ∈ layout.slots)
    {front rest : List (List UInt8 × Expr)} {m : List UInt8 × Expr}
    (named : Named slot.name m) (read : layout.ofMembers? (front ++ m :: rest) = some record) :
    ∃ draft update, slot.update? m.2 = some update ∧
      layout.complete? (update draft) = some record ∧
      ∀ other, layout.ofMembers? (front ++ (m.1, other) :: rest) =
        (slot.update? other).bind fun update => layout.complete? (update draft) := by
  rw [ofMembers_middle separate mem named] at read
  obtain ⟨draft, folded, whole⟩ := Option.bind_eq_some_iff.1 read
  split at whole
  · cases whole
  · rename_i unset
    obtain ⟨update, updated, completed⟩ := Option.bind_eq_some_iff.1 whole
    refine ⟨draft, update, updated, completed, fun other => ?_⟩
    have named' : Named slot.name (m.1, other) := named
    rw [ofMembers_middle separate mem named', folded]
    exact if_neg unset

/-- Behind the item of a field the others take theirs, and what they do does not depend on it. -/
theorem ofItems_behind {slots : List (Slot σ)}
    (independent : ∀ other ∈ slots, slot.Independent other) {items : List Expr} {draft : σ}
    {update : σ → σ} (updated : slot.update? expr = some update)
    (read : layout.ofItems? slots (update draft) items = some record) :
    ∃ draft', layout.complete? (update draft') = some record ∧
      ∀ other update', slot.update? other = some update' →
        layout.ofItems? slots (update' draft) items = layout.complete? (update' draft') := by
  induction slots generalizing items draft with
  | nil =>
    cases items with
    | nil => exact ⟨draft, read, fun _ _ _ => rfl⟩
    | cons item items => cases read
  | cons first slots ih =>
    cases items with
    | nil => exact ⟨draft, read, fun _ _ _ => rfl⟩
    | cons item items =>
      obtain ⟨later, isLater, rest⟩ := Option.bind_eq_some_iff.1 read
      have apart := independent first List.mem_cons_self
      rw [← (apart expr item update later updated isLater draft).1] at rest
      obtain ⟨draft', completed, others⟩ :=
        ih (fun other mem => independent other (List.mem_cons_of_mem _ mem)) rest
      refine ⟨draft', completed, fun other update' updated' => ?_⟩
      rw [← others other update' updated', (apart other item update' later updated' isLater draft).1,
        ofItems?, isLater]
      rfl

/-- The item at the place of a field is taken in once, and the rest of the record stays the same if
another stands there. -/
theorem ofItems_placed {slots : List (Slot σ)} (independent : slots.Pairwise Slot.Independent)
    {place : Nat} (isSlot : slots[place]? = some slot) {items : List Expr} {draft : σ}
    (mem : items[place]? = some expr) (read : layout.ofItems? slots draft items = some record) :
    ∃ draft' update, slot.update? expr = some update ∧
      layout.complete? (update draft') = some record ∧
      ∀ other, layout.ofItems? slots draft (items.set place other) =
        (slot.update? other).bind fun update => layout.complete? (update draft') := by
  induction slots generalizing place items draft with
  | nil => cases isSlot
  | cons first slots ih =>
    obtain ⟨apart, later⟩ := List.pairwise_cons.1 independent
    cases items with
    | nil => cases mem
    | cons item items =>
      obtain ⟨update, updated, rest⟩ := Option.bind_eq_some_iff.1 read
      cases place with
      | zero =>
        cases isSlot
        cases mem
        obtain ⟨draft', completed, others⟩ := ofItems_behind apart updated rest
        refine ⟨draft', update, updated, completed, fun other => ?_⟩
        rw [List.set_cons_zero, ofItems?]
        cases updated' : slot.update? other with
        | none => rfl
        | some update' => exact others other update' updated'
      | succ place =>
        obtain ⟨draft', last, isLast, completed, replaced⟩ := ih later isSlot mem rest
        refine ⟨draft', last, isLast, completed, fun other => ?_⟩
        rw [← replaced other, List.set_cons_succ, ofItems?, updated]
        rfl

/-- A record depends on what is written for a field only as the field tells. -/
theorem exists_draft (separate : layout.Separate) {place : Nat}
    (isSlot : layout.slots[place]? = some slot) {written : Expr → Expr}
    (field : FieldIn slot.name place written) (read : layout.of? (written expr) = some record) :
    ∃ draft update, slot.update? expr = some update ∧
      layout.complete? (update draft) = some record ∧
      ∀ other, layout.of? (written other) =
        (slot.update? other).bind fun update => layout.complete? (update draft) := by
  cases field with
  | @member key front rest named =>
    have mem := List.mem_of_getElem? isSlot
    exact ofMembers_named separate mem (m := (key, expr)) named read
  | @item items inside =>
    have stands : (items.set place expr)[place]? = some expr := List.getElem?_set_self inside
    obtain ⟨draft, update, updated, completed, others⟩ :=
      ofItems_placed separate.independent isSlot stands read
    refine ⟨draft, update, updated, completed, fun other => ?_⟩
    have again : (items.set place expr).set place other = items.set place other := List.set_set ..
    exact (congrArg (layout.ofItems? layout.slots layout.empty) again.symm).trans (others other)

/-- What is written for another field leaves a field as it is. -/
theorem isSet_putField (separate : layout.Separate) (mem : slot ∈ layout.slots)
    (accepts : ∃ expr update, slot.update? expr = some update) {name : String}
    (other : name ≠ slot.name) {draft draft' : σ}
    (put : layout.putField draft name expr = some draft') :
    slot.isSet draft' = slot.isSet draft := by
  obtain ⟨own, update, updated⟩ := accepts
  rcases slot_or_unknown layout name with ⟨slot', mem', rfl⟩ | unknown
  · have different : slot ≠ slot' := fun same => other (congrArg Slot.name same.symm)
    rw [putField_slot separate mem'] at put
    split at put
    · cases put
    · obtain ⟨update', updated', rfl⟩ := Option.map_eq_some_iff.1 put
      have apart := independent_of_ne separate mem mem' different
      exact (apart own expr update update' updated updated' draft).2.1
  · rw [putField_unknown unknown] at put
    cases put
    rfl

theorem isSet_members (separate : layout.Separate) (mem : slot ∈ layout.slots)
    (accepts : ∃ expr update, slot.update? expr = some update)
    {members : List (List UInt8 × Expr)} (unnamed : ∀ m ∈ members, ¬Named slot.name m)
    {draft draft' : σ} (h : members.foldlM (putMember layout.putField) draft = some draft') :
    slot.isSet draft' = slot.isSet draft := by
  induction members generalizing draft with
  | nil =>
    cases h
    rfl
  | cons m members ih =>
    rw [List.foldlM_cons] at h
    obtain ⟨middle, put, later⟩ := Option.bind_eq_some_iff.1 h
    obtain ⟨key, named, put⟩ := putMember_eq_some put
    have other : key ≠ slot.name := by
      rintro rfl
      exact unnamed m List.mem_cons_self named
    rw [ih (fun m' mem' => unnamed m' (List.mem_cons_of_mem _ mem')) later,
      isSet_putField separate mem accepts other put]

/-- A list that ends in front of a field leaves it as it is. -/
theorem exists_unset_of_short {slots : List (Slot σ)}
    (independent : slots.Pairwise Slot.Independent) {place : Nat}
    (isSlot : slots[place]? = some slot)
    (accepts : ∃ expr update, slot.update? expr = some update) {items : List Expr}
    (short : items.length ≤ place) {draft : σ} (unset : slot.isSet draft = false)
    (read : layout.ofItems? slots draft items = some record) :
    ∃ draft', slot.isSet draft' = false ∧ layout.complete? draft' = some record := by
  obtain ⟨own, update, updated⟩ := accepts
  induction items generalizing slots place draft with
  | nil =>
    cases slots with
    | nil => cases isSlot
    | cons first slots => exact ⟨draft, unset, read⟩
  | cons item items ih =>
    cases slots with
    | nil => cases isSlot
    | cons first slots =>
      cases place with
      | zero => cases short
      | succ place =>
        obtain ⟨apart, later⟩ := List.pairwise_cons.1 independent
        obtain ⟨update', updated', rest⟩ := Option.bind_eq_some_iff.1 read
        have mem : slot ∈ slots := List.mem_of_getElem? isSlot
        obtain ⟨-, -, kept⟩ := apart slot mem item own update' update updated' updated draft
        exact ih later isSlot (Nat.le_of_succ_le_succ short) (kept.trans unset) rest

/-- A record is completed without a field that is not written. -/
theorem exists_unset (separate : layout.Separate) {place : Nat}
    (isSlot : layout.slots[place]? = some slot)
    (accepts : ∃ expr update, slot.update? expr = some update)
    (unset : slot.isSet layout.empty = false)
    (missing : ∀ inner, ¬HasField slot.name place expr inner)
    (read : layout.of? expr = some record) :
    ∃ draft, slot.isSet draft = false ∧ layout.complete? draft = some record := by
  cases expr with
  | object members =>
    obtain ⟨draft, folded, completed⟩ := Option.bind_eq_some_iff.1 read
    have unnamed : ∀ m ∈ members, ¬Named slot.name m := by
      intro m mem named
      obtain ⟨inner, field⟩ := HasField.exists_of_named place mem named
      exact missing inner field
    have kept := isSet_members separate (List.mem_of_getElem? isSlot) accepts unnamed folded
    exact ⟨draft, kept.trans unset, completed⟩
  | array items =>
    have short : items.length ≤ place := by
      apply Nat.le_of_not_lt
      intro long
      exact missing _ (.item (List.getElem?_eq_getElem long))
    exact exists_unset_of_short separate.independent isSlot accepts short unset read
  | null | boolean | number | string => cases read

end Layout

end Json

open Json

namespace Document

def samplesSlot : Slot Draft :=
  slot "samples" (fun d => d.samples.isSome) (Expr.values? (nestingLimit - 2))
    fun x d => { d with samples := some x }

theorem complete_samples {draft : Draft} {document : Document} (h : complete draft = .ok document)
    (samples : List Value) :
    complete { draft with samples := some samples } = .ok { document with samples } := by
  unfold complete at h ⊢
  dsimp only
  split at h
  · cases h
  · cases h
  · cases h
  · cases h
    rfl

/-- The samples of a document are what is written for its last field, and nothing else in the
document depends on that. -/
theorem of_fieldIn {written : Expr → Expr} {list : Expr} {document : Document}
    (field : FieldIn "samples" 6 written) (h : layout.of? (written list) = some document) :
    list.values? (nestingLimit - 2) = some document.samples ∧
      ∀ other, layout.of? (written other) =
        (other.values? (nestingLimit - 2)).map fun samples => { document with samples } := by
  have isSlot : layout.slots[6]? = some samplesSlot := rfl
  obtain ⟨draft, update, updated, whole, others⟩ :=
    Layout.exists_draft separate_document isSlot field h
  obtain ⟨values, read, rfl⟩ := Option.map_eq_some_iff.1 updated
  have completed := eq_ok_of_toOption whole
  refine ⟨?_, fun other => ?_⟩
  · rw [(complete_eq_ok completed).2.2.2]
    exact read
  · have again (samples : List Value) :
        layout.complete? { draft with samples := some samples } = some { document with samples } :=
      congrArg Except.toOption (complete_samples completed samples)
    rw [others other]
    show ((other.values? (nestingLimit - 2)).map _).bind _ = _
    cases other.values? (nestingLimit - 2) with
    | none => rfl
    | some samples => exact again samples

theorem samples_of_layout {expr list : Expr} {document : Document}
    (h : layout.of? expr = some document) (field : HasField "samples" 6 expr list) :
    list.values? (nestingLimit - 2) = some document.samples := by
  obtain ⟨written, place, rfl⟩ := field.exists_fieldIn
  exact (of_fieldIn place h).1

theorem samples_of_missing {expr : Expr} {document : Document}
    (h : layout.of? expr = some document) (missing : ∀ list, ¬HasField "samples" 6 expr list) :
    document.samples = [] := by
  have isSlot : layout.slots[6]? = some samplesSlot := rfl
  obtain ⟨draft, unset, completed⟩ :=
    Layout.exists_unset separate_document isSlot ⟨.array [], _, rfl⟩ rfl missing h
  have none : draft.samples = none :=
    Option.isNone_iff_eq_none.1 (Option.isSome_eq_false_iff.1 unset)
  rw [(complete_eq_ok (eq_ok_of_toOption completed)).2.2.2, none]
  rfl

/-- How the samples of a document stand in it: each as it is written, in their order, or none at
all. -/
inductive SamplesIn (expr : Expr) (samples : List Value) : Prop
  | written {items : List Expr} (field : HasField "samples" 6 expr (.array items))
    (read : items.mapM (Expr.value? (nestingLimit - 2)) = some samples)
  | missing (absent : ∀ list, ¬HasField "samples" 6 expr list) (none : samples = [])

end Document

namespace Dump

theorem samplesIn_of_parse {expr : Expr} {input : List UInt8} {dump : Dump}
    (spelled : Spelled expr input) (accepted : parse input = .ok dump) :
    Document.SamplesIn expr dump.samples := by
  obtain ⟨document, read, judged⟩ := layout_of_parse spelled accepted
  rw [(ofDocument_eq_ok judged).2.2.2]
  by_cases given : ∃ list, HasField "samples" 6 expr list
  · obtain ⟨list, field⟩ := given
    have values := Document.samples_of_layout read field
    cases list with
    | array items => exact .written field values
    | null | boolean | number | string | object => cases values
  · have missing : ∀ list, ¬HasField "samples" 6 expr list := fun list field => given ⟨list, field⟩
    exact .missing missing (Document.samples_of_missing read missing)

/-- A sample of a dump is read from what is written for it. -/
theorem sample_of_parse {expr : Expr} {input : List UInt8} {dump : Dump} {items : List Expr}
    (spelled : Spelled expr input) (accepted : parse input = .ok dump)
    (field : HasField "samples" 6 expr (.array items)) {i : Nat} {sample : Expr}
    (mem : items[i]? = some sample) :
    ∃ v, sample.value? (nestingLimit - 2) = some v ∧ dump.samples[i]? = some v := by
  obtain ⟨document, read, judged⟩ := layout_of_parse spelled accepted
  have values := Document.samples_of_layout read field
  rw [(ofDocument_eq_ok judged).2.2.2]
  exact mapM_getElem values mem

end Dump

end DiveTable
