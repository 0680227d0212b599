import DiveTable.Proofs.DocumentLayout
import DiveTable.Proofs.PlainSpelling
import DiveTable.Proofs.Respelling

/-! # Documents written in another way

A dump depends on its document alone, not on how that is written: white space, escapes, the order
of members and members without a meaning change nothing. Main statement: a document that is
accepted is accepted in every other spelling, as the same dump; one that names a field twice is
never accepted. -/
namespace DiveTable

open Json

namespace Document

def dateTimeNames : List String := ["year", "month", "day", "hour", "minute", "second"]

def fieldNames : List String :=
  ["format_version", "vendor", "product", "datetime", "max_depth", "dive_time", "samples"]

def DateTimeRewritten : List (List UInt8 × Expr) → List (List UInt8 × Expr) → Prop :=
  Rewritten dateTimeNames fun _ => Respelled

def FieldRewritten (name : String) (a b : Expr) : Prop :=
  Respelled a b ∨ name = "datetime" ∧ ∃ members members',
    a = .object members ∧ b = .object members' ∧ DateTimeRewritten members members'

def NamedTwice (names : List String) (members : List (List UInt8 × Expr)) : Prop :=
  ∃ name ∈ names, ∃ m m', [m, m'].Sublist members ∧ Named name m ∧ Named name m'

theorem independent_slots {α β σ : Type} {name name' : String} {isSet isSet' : σ → Bool}
    {of? : Expr → Option α} {of?' : Expr → Option β} {set : α → σ → σ} {set' : β → σ → σ}
    (both : ∀ x y draft, set x (set' y draft) = set' y (set x draft))
    (kept : ∀ y draft, isSet (set' y draft) = isSet draft)
    (kept' : ∀ x draft, isSet' (set x draft) = isSet' draft) :
    (slot name isSet of? set).Independent (slot name' isSet' of?' set') := by
  intro expr expr' update update' updated updated' draft
  obtain ⟨x, -, rfl⟩ := Option.map_eq_some_iff.1 updated
  obtain ⟨y, -, rfl⟩ := Option.map_eq_some_iff.1 updated'
  exact ⟨both x y draft, kept y draft, kept' x draft⟩

theorem sets_slot {α σ : Type} {name : String} {isSet : σ → Bool} {of? : Expr → Option α}
    {set : α → σ → σ} (h : ∀ x draft, isSet (set x draft) = true) (expr : Expr) (update : σ → σ)
    (updated : (slot name isSet of? set).update? expr = some update) (draft : σ) :
    (slot name isSet of? set).isSet (update draft) = true := by
  obtain ⟨x, -, rfl⟩ := Option.map_eq_some_iff.1 updated
  exact h x draft

theorem slot_refused {α σ : Type} {name : String} {isSet : σ → Bool} {of? : Expr → Option α}
    {set : α → σ → σ} {expr : Expr} (h : of? expr = none) :
    (slot name isSet of? set).update? expr = none := congrArg (Option.map set) h

theorem separate_dateTime : dateTimeLayout.Separate where
  named := by decide
  sets := by
    simp only [dateTimeLayout, List.forall_mem_cons, List.not_mem_nil, false_implies, implies_true,
      and_true]
    refine ⟨?_, ?_, ?_, ?_, ?_, ?_⟩
    all_goals exact sets_slot fun _ _ => rfl
  independent := by
    simp only [dateTimeLayout, List.pairwise_cons, List.forall_mem_cons, List.not_mem_nil,
      false_implies, implies_true, and_true, List.Pairwise.nil, and_assoc]
    refine ⟨?_, ?_, ?_, ?_, ?_, ?_, ?_, ?_, ?_, ?_, ?_, ?_, ?_, ?_, ?_⟩
    all_goals exact independent_slots (fun _ _ _ => rfl) (fun _ _ => rfl) fun _ _ => rfl

theorem separate_document : layout.Separate where
  named := by decide
  sets := by
    simp only [layout, List.forall_mem_cons, List.not_mem_nil, false_implies, implies_true,
      and_true]
    refine ⟨?_, ?_, ?_, ?_, ?_, ?_, ?_⟩
    all_goals exact sets_slot fun _ _ => rfl
  independent := by
    simp only [layout, List.pairwise_cons, List.forall_mem_cons, List.not_mem_nil,
      false_implies, implies_true, and_true, List.Pairwise.nil, and_assoc]
    refine ⟨?_, ?_, ?_, ?_, ?_, ?_, ?_, ?_, ?_, ?_, ?_, ?_, ?_, ?_, ?_, ?_, ?_, ?_, ?_, ?_, ?_⟩
    all_goals exact independent_slots (fun _ _ _ => rfl) (fun _ _ => rfl) fun _ _ => rfl

theorem settled_slot {α σ : Type} {name : String} {isSet : σ → Bool} {of? : Expr → Option α}
    {set : α → σ → σ} (h : Settled of?) : Settled (slot name isSet of? set).update? :=
  settled_map h set

theorem settled_whole (limit : Nat) {α : Type} (f : Nat → α) :
    Settled fun expr => (expr.numeric? (Number.natural? limit)).map f :=
  settled_map (settled_numeric _) f

theorem settled_dateTime : Settled dateTimeLayout.of? := by
  apply Layout.settled_of separate_dateTime
  simp only [dateTimeLayout, List.forall_mem_cons, List.not_mem_nil, false_implies, implies_true,
    and_true]
  refine ⟨?_, ?_, ?_, ?_, ?_, ?_⟩
  all_goals exact settled_slot (settled_whole _ _)

/-- The fields of a document do not depend on the spelling of their values. -/
theorem settled_fields : ∀ slot ∈ layout.slots, Settled slot.update? := by
  simp only [layout, List.forall_mem_cons, List.not_mem_nil, false_implies, implies_true, and_true]
  refine ⟨?_, ?_, ?_, ?_, ?_, ?_, ?_⟩
  · exact settled_slot settled_text
  · exact settled_slot settled_text
  · exact settled_slot settled_text
  · exact settled_slot (settled_optional settled_dateTime)
  · exact settled_slot (settled_optional (settled_numeric _))
  · exact settled_slot (settled_optional (settled_whole _ _))
  · exact settled_slot (settled_values _)

theorem dateTime_rewritten {members members' : List (List UInt8 × Expr)}
    (h : DateTimeRewritten members members') :
    dateTimeLayout.of? (.object members) = dateTimeLayout.of? (.object members') := by
  refine Layout.ofMembers_rewritten separate_dateTime (fun slot mem a b same => ?_) h
  revert slot
  simp only [dateTimeLayout, List.forall_mem_cons, List.not_mem_nil, false_implies, implies_true,
    and_true]
  refine ⟨?_, ?_, ?_, ?_, ?_, ?_⟩
  all_goals exact settled_slot (settled_whole _ _) same

theorem optional_rewritten {members members' : List (List UInt8 × Expr)}
    (h : DateTimeRewritten members members') :
    Expr.optional? dateTimeLayout.of? (.object members) =
      Expr.optional? dateTimeLayout.of? (.object members') :=
  congrArg (Option.map some) (dateTime_rewritten h)

theorem update_rewritten (slot : Slot Draft) (mem : slot ∈ layout.slots) (a b : Expr)
    (h : FieldRewritten slot.name a b) : slot.update? a = slot.update? b := by
  rcases h with same | ⟨isDateTime, members, members', rfl, rfl, rewritten⟩
  · exact settled_fields slot mem same
  · have found := Layout.find_slot separate_document mem
    rw [isDateTime] at found
    cases Option.some.inj found
    exact congrArg (Option.map _) (optional_rewritten rewritten)

/-- A document has the same meaning however its members are written. -/
theorem of_rewritten {members members' : List (List UInt8 × Expr)}
    (h : Rewritten fieldNames FieldRewritten members members') :
    layout.of? (.object members) = layout.of? (.object members') :=
  Layout.ofMembers_rewritten separate_document update_rewritten h

/-- A field is named twice in the document or in its date and time. -/
inductive Repeats : Expr → Prop
  | field {members : List (List UInt8 × Expr)} (h : NamedTwice fieldNames members) :
    Repeats (.object members)
  | dateTimeMember {members inner : List (List UInt8 × Expr)} {key : List UInt8}
    (mem : (key, .object inner) ∈ members) (named : Named "datetime" (key, .object inner))
    (h : NamedTwice dateTimeNames inner) : Repeats (.object members)
  | dateTimeItem {items : List Expr} {inner : List (List UInt8 × Expr)}
    (mem : items[3]? = some (.object inner)) (h : NamedTwice dateTimeNames inner) :
    Repeats (.array items)

theorem dateTime_twice {inner : List (List UInt8 × Expr)} (h : NamedTwice dateTimeNames inner) :
    Expr.optional? dateTimeLayout.of? (.object inner) = none := by
  obtain ⟨name, known, m, m', both, named, named'⟩ := h
  have refused := Layout.ofMembers_twice separate_dateTime known both named named'
  exact congrArg (Option.map some) refused

theorem slots_dateTime : layout.slots[3]? = some (slot "datetime" (fun d => d.dateTime.isSome)
    (Expr.optional? dateTimeLayout.of?) fun x d => { d with dateTime := some x }) := rfl

theorem none_of_repeats {expr : Expr} (h : Repeats expr) : layout.of? expr = none := by
  cases h with
  | field h =>
    obtain ⟨name, known, m, m', both, named, named'⟩ := h
    exact Layout.ofMembers_twice separate_document known both named named'
  | dateTimeMember mem named h =>
    have mem' := List.mem_of_getElem? slots_dateTime
    have spoils := Layout.ofMembers_spoiled separate_document mem' mem named
    exact spoils (slot_refused (dateTime_twice h))
  | dateTimeItem mem h =>
    exact Layout.ofItems_spoiled slots_dateTime mem (slot_refused (dateTime_twice h)) layout.empty

/-! ## A dive in two spellings -/

def bytesOf (text : String) : List UInt8 := text.toUTF8.toList

def whole (lead : Fin 10) (more : Digits) (h : more = [] ∨ lead ≠ 0) : Expr :=
  .number ⟨false, lead, more, [], none, h⟩

def day : List (List UInt8 × Expr) :=
  [(bytesOf "year", whole 2 [0, 2, 4] (by decide)), (bytesOf "month", whole 3 [] (by decide)),
    (bytesOf "day", whole 9 [] (by decide))]

def sampleMembers (kind : String) : List (List UInt8 × Expr) :=
  [(bytesOf "type", .string (bytesOf kind)), (bytesOf "value", whole 7 [] (by decide))]

def diveMembers (vendor : String) (date sample : List (List UInt8 × Expr)) :
    List (List UInt8 × Expr) :=
  [(bytesOf "format_version", .string (bytesOf "1.0.0")),
    (bytesOf vendor, .string (bytesOf "Divesoft")),
    (bytesOf "product", .string (bytesOf "Freedom")),
    (bytesOf "datetime", .object date), (bytesOf "samples", .array [.object sample])]

def note : List UInt8 × Expr := (bytesOf "note", .array [.string (bytesOf "\\uD800"), .null])

def zone : List UInt8 × Expr := (bytesOf "zone", .object [])

def plainMembers : List (List UInt8 × Expr) := diveMembers "vendor" day (sampleMembers "depth")

/-- The same dive with escapes, with members in the reverse order and with two more of them. -/
def otherMembers : List (List UInt8 × Expr) :=
  (note :: diveMembers "v\\u0065ndor" (zone :: day)
    (sampleMembers "d\\u0065pth").reverse).reverse

theorem named_of_text {name : String} {m : List UInt8 × Expr} (h : tokenText? m.1 = some name) :
    Named name m := tokenText_eq_some.1 h

theorem respelled_sample : Respelled (.object (sampleMembers "depth"))
    (.object (sampleMembers "d\\u0065pth").reverse) := by
  have plain : tokenText? (bytesOf "depth") = some "depth" := by decide +kernel
  have escaped : tokenText? (bytesOf "d\\u0065pth") = some "depth" := by decide +kernel
  have kind : Respelled (.object (sampleMembers "depth")) (.object (sampleMembers "d\\u0065pth")) :=
    .value [] _ (.string (tokenText_eq_some.1 plain) (tokenText_eq_some.1 escaped))
  refine .trans kind (.order (List.pairwise_pair.2 ?_) (List.reverse_perm _).symm)
  intro name named named'
  have first : tokenText? (bytesOf "type") = some "type" := by decide +kernel
  have second : tokenText? (bytesOf "value") = some "value" := by decide +kernel
  have same := (tokenText_eq_some.2 named).symm.trans first
  have same' := (tokenText_eq_some.2 named').symm.trans second
  rw [same'] at same
  exact absurd (Option.some.inj same) (by decide)

theorem rewritten_otherMembers : Rewritten fieldNames FieldRewritten plainMembers otherMembers := by
  have zoneKey : Named "zone" zone := named_of_text (by decide +kernel)
  have noteKey : Named "note" note := named_of_text (by decide +kernel)
  have date : DateTimeRewritten day (zone :: day) := .insert [] day zoneKey (by decide)
  have dateKey : Named "datetime" (bytesOf "datetime", .object day) :=
    named_of_text (by decide +kernel)
  have samplesKey : Named "samples" (bytesOf "samples", .array [.object (sampleMembers "depth")]) :=
    named_of_text (by decide +kernel)
  have vendorKey : Named "vendor" (bytesOf "vendor", .string (bytesOf "Divesoft")) :=
    named_of_text (by decide +kernel)
  have vendorKey' : Named "vendor" (bytesOf "v\\u0065ndor", .string (bytesOf "Divesoft")) :=
    named_of_text (by decide +kernel)
  have dated : Rewritten fieldNames FieldRewritten plainMembers
      (diveMembers "vendor" (zone :: day) (sampleMembers "depth")) :=
    .value (plainMembers.take 3) (plainMembers.drop 4) dateKey
      (.inr ⟨rfl, day, zone :: day, rfl, rfl, date⟩)
  have sampled : Rewritten fieldNames FieldRewritten
      (diveMembers "vendor" (zone :: day) (sampleMembers "depth"))
      (diveMembers "vendor" (zone :: day) (sampleMembers "d\\u0065pth").reverse) :=
    .value ((diveMembers "vendor" (zone :: day) (sampleMembers "depth")).take 4) [] samplesKey
      (.inl (.item [] [] respelled_sample))
  have escaped : Rewritten fieldNames FieldRewritten
      (diveMembers "vendor" (zone :: day) (sampleMembers "d\\u0065pth").reverse)
      (diveMembers "v\\u0065ndor" (zone :: day) (sampleMembers "d\\u0065pth").reverse) :=
    .key ((diveMembers "vendor" (zone :: day) (sampleMembers "d\\u0065pth").reverse).take 1)
      ((diveMembers "vendor" (zone :: day) (sampleMembers "d\\u0065pth").reverse).drop 2)
      vendorKey vendorKey'
  have noted : Rewritten fieldNames FieldRewritten
      (diveMembers "v\\u0065ndor" (zone :: day) (sampleMembers "d\\u0065pth").reverse)
      (note :: diveMembers "v\\u0065ndor" (zone :: day) (sampleMembers "d\\u0065pth").reverse) :=
    .insert [] _ noteKey (by decide)
  have changed := dated.trans (sampled.trans (escaped.trans noted))
  exact changed.trans (.order (List.reverse_perm _).symm)

theorem repeats_twice : Repeats (.object (plainMembers ++ plainMembers)) := by
  have mem : (bytesOf "vendor", .string (bytesOf "Divesoft")) ∈ plainMembers :=
    List.mem_of_getElem? (rfl : plainMembers[1]? = some _)
  have named : Named "vendor" (bytesOf "vendor", .string (bytesOf "Divesoft")) :=
    named_of_text (by decide +kernel)
  have both := (List.singleton_sublist.2 mem).append (List.singleton_sublist.2 mem)
  exact .field ⟨"vendor", by decide, _, _, both, named, named⟩

end Document

namespace Dump

open Document

/-- Documents with the same meaning are accepted alike. -/
theorem parse_of_same {expr expr' : Expr} {input input' : List UInt8} {dump : Dump}
    (spelled : Spelled expr input) (spelled' : Spelled expr' input')
    (same : layout.of? expr = layout.of? expr') (accepted : parse input = .ok dump) :
    parse input' = .ok dump := by
  obtain ⟨document, read, judged⟩ := layout_of_parse spelled accepted
  rw [parse_of_layout spelled' (same.symm.trans read), judged]

theorem error_of_none {expr : Expr} {input : List UInt8} (spelled : Spelled expr input)
    (h : layout.of? expr = none) : ∃ fault, parse input = .error fault := by
  obtain ⟨fault, failed⟩ := json_of_layout spelled h
  exact ⟨_, failed⟩

theorem spelled_of_parse {input : List UInt8} {dump : Dump} (h : parse input = .ok dump) :
    (∃ members, Spelled (.object members) input) ∨ ∃ items, Spelled (.array items) input := by
  obtain ⟨document, read, -⟩ := document_of_parse h
  obtain ⟨expr, spelled⟩ := Document.spelled_of_parse read
  obtain ⟨document', meaning, -⟩ := layout_of_parse spelled h
  cases expr with
  | object members => exact .inl ⟨members, spelled⟩
  | array items => exact .inr ⟨items, spelled⟩
  | null | boolean | number | string => cases meaning

/-- What is accepted is an object or a list of fields. An object is accepted as the same dump in
any spelling, with its members in any order and with others that name no field; one in which a
field is named twice is not accepted. -/
theorem parse_of_rewritten :
    (∀ input dump, parse input = .ok dump →
      (∃ members, Spelled (.object members) input) ∨ ∃ items, Spelled (.array items) input) ∧
    (∀ members members' input input' dump, Spelled (.object members) input →
      parse input = .ok dump → Rewritten fieldNames FieldRewritten members members' →
        Spelled (.object members') input' → parse input' = .ok dump) ∧
    ∀ expr input, Repeats expr → Spelled expr input → ∃ fault, parse input = .error fault := by
  refine ⟨?_, ?_, ?_⟩
  · intro input dump accepted
    exact spelled_of_parse accepted
  · intro members members' input input' dump spelled accepted rewritten spelled'
    exact parse_of_same spelled spelled' (of_rewritten rewritten) accepted
  · intro expr input repeats spelled
    exact error_of_none spelled (none_of_repeats repeats)

theorem parse_of_otherMembers :
    ∃ plain other twice dump, Spelled (.object plainMembers) plain ∧ parse plain = .ok dump ∧
      ((∃ members, Spelled (.object members) plain) ∨ ∃ items, Spelled (.array items) plain) ∧
      Rewritten fieldNames FieldRewritten plainMembers otherMembers ∧
      Spelled (.object otherMembers) other ∧ parse other = .ok dump ∧
      Repeats (.object (plainMembers ++ plainMembers)) ∧
      Spelled (.object (plainMembers ++ plainMembers)) twice ∧
      ∃ fault, parse twice = .error fault := by
  have plain : Spelled (.object plainMembers) ([] ++ Expr.print (.object plainMembers) []) :=
    spelled_print (by decide +kernel) nofun nofun
  have other : Spelled (.object otherMembers)
      ([Ascii.lineFeed] ++ Expr.print (.object otherMembers) [Ascii.space]) :=
    spelled_print (by decide +kernel) (List.forall_mem_singleton.2 rfl)
      (List.forall_mem_singleton.2 rfl)
  have twice : Spelled (.object (plainMembers ++ plainMembers))
      ([] ++ Expr.print (.object (plainMembers ++ plainMembers)) []) :=
    spelled_print (by decide +kernel) nofun nofun
  have read : (parse ([] ++ Expr.print (.object plainMembers) [])).toOption.isSome = true := by
    decide +kernel
  obtain ⟨dump, value⟩ := Option.isSome_iff_exists.1 read
  have accepted := eq_ok_of_toOption value
  exact ⟨_, _, _, dump, plain, accepted, parse_of_rewritten.1 _ _ accepted, rewritten_otherMembers,
    other, parse_of_rewritten.2.1 _ _ _ _ _ plain accepted rewritten_otherMembers other,
    repeats_twice, twice, parse_of_rewritten.2.2 _ _ repeats_twice twice⟩

end Dump

end DiveTable
