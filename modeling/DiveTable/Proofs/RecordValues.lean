import DiveTable.Proofs.FieldValues
import DiveTable.Proofs.SampleMeaning

/-! # Values of records

A record that is kept as a value depends on what is written for a field in that field alone:
another value there is put into the record, which otherwise stays as it is. What a sample or a deco
stop is made of is told by the fields of its value. -/
namespace DiveTable

namespace Json

inductive LastIn (name : String) (place : Nat) : (Expr → Expr) → Prop
  | member {key : List UInt8} (front rest : List (List UInt8 × Expr))
    (named : SpellsText name.toList key) (last : ∀ m ∈ rest, ¬Named name m) :
    LastIn name place fun expr => .object (front ++ (key, expr) :: rest)
  | item {items : List Expr} (inside : place < items.length) :
    LastIn name place fun expr => .array (items.set place expr)

theorem Members.insert_insert (key : String) (v w : Value) (members : Members) :
    (members.insert key v).insert key w = members.insert key w := by
  induction members with
  | nil => exact insert_cons_same key w v []
  | cons member rest ih =>
    obtain ⟨k, u⟩ := member
    rcases lt_or_eq_or_gt key k with below | rfl | above
    · rw [insert_cons_lt below, insert_cons_lt below, insert_cons_same]
    · rw [insert_cons_same, insert_cons_same, insert_cons_same]
    · rw [insert_cons_gt above, insert_cons_gt above, insert_cons_gt above, ih]

namespace Value

def put (name : String) (place : Nat) (record w : Value) : Value :=
  match record with
  | .object members => .object (Members.insert name w members)
  | .array items => .array (items.set place w)
  | v => v

def IsRecord (size : Nat) : Value → Prop
  | .object _ => True
  | .array items => items.length ≤ size
  | _ => False

variable {name other : String} {place at' : Nat} {record v : Value}

theorem field_put (has : record.field? name place = some v) (w : Value) :
    (record.put name place w).field? name place = some w := by
  cases record with
  | object members => exact (Members.lookup_insert name name w members).trans (if_pos rfl)
  | array items => exact List.getElem?_set_self (List.getElem?_eq_some_iff.1 has).1
  | null | boolean | number | string => cases has

theorem field_put_other (different : other ≠ name) (apart : at' ≠ place) (w : Value) :
    (record.put name place w).field? other at' = record.field? other at' := by
  cases record with
  | object members => exact (Members.lookup_insert name other w members).trans (if_neg different)
  | array items => exact List.getElem?_set_ne apart.symm
  | null | boolean | number | string => rfl

theorem isRecord_put {size : Nat} {w : Value} :
    (record.put name place w).IsRecord size ↔ record.IsRecord size := by
  cases record with
  | array items =>
    show (items.set place w).length ≤ size ↔ items.length ≤ size
    rw [List.length_set]
  | object | null | boolean | number | string => rfl

end Value

section

variable {of? : Expr → Option Value} {name : String}

/-- Members of other names keep a member that is put in before or behind them. -/
theorem foldlM_insert {rest : List (List UInt8 × Expr)} (unnamed : ∀ m ∈ rest, ¬Named name m)
    (kept : Members) (w : Value) :
    rest.foldlM (putMember (keepMember of?)) (kept.insert name w) =
      (rest.foldlM (putMember (keepMember of?)) kept).map (Members.insert name w) := by
  induction rest generalizing kept with
  | nil => rfl
  | cons m rest ih =>
    have later := ih fun m' mem => unnamed m' (List.mem_cons_of_mem _ mem)
    rw [List.foldlM_cons, List.foldlM_cons]
    cases text : tokenText? m.1 with
    | none =>
      rw [putMember_none text, putMember_none text]
      rfl
    | some key =>
      have named : Named key m := tokenText_eq_some.1 text
      have different : name ≠ key := by
        rintro rfl
        exact unnamed m List.mem_cons_self named
      rw [putMember_named named, putMember_named named, keepMember, keepMember]
      cases of? m.2 with
      | none => rfl
      | some v =>
        have swapped := later (kept.insert key v)
        rw [← Members.insert_comm different] at swapped
        exact swapped

/-- Items are read one by one. -/
theorem mapM_middle {front rest : List Expr} {item : Expr} {values : List Value} :
    (front ++ item :: rest).mapM of? = some values ↔ ∃ before v behind,
      values = before ++ v :: behind ∧ front.mapM of? = some before ∧ of? item = some v ∧
        rest.mapM of? = some behind := by
  rw [List.mapM_append, List.mapM_cons]
  constructor
  · intro h
    obtain ⟨before, first, h⟩ := Option.bind_eq_some_iff.1 h
    obtain ⟨others, h, same⟩ := Option.bind_eq_some_iff.1 h
    obtain ⟨v, value, h⟩ := Option.bind_eq_some_iff.1 h
    obtain ⟨behind, last, h⟩ := Option.bind_eq_some_iff.1 h
    cases h
    cases same
    exact ⟨before, v, behind, rfl, first, value, last⟩
  · rintro ⟨before, v, behind, rfl, first, value, last⟩
    rw [first, value, last]
    rfl

theorem mapM_around {front rest : List Expr} {before behind : List Value}
    (first : front.mapM of? = some before) (last : rest.mapM of? = some behind) (item : Expr) :
    (front ++ item :: rest).mapM of? = (of? item).map fun v => before ++ v :: behind := by
  rw [List.mapM_append, List.mapM_cons, first, last]
  cases of? item <;> rfl

theorem length_of_mapM {items : List Expr} {values : List Value}
    (h : items.mapM of? = some values) : values.length = items.length := by
  induction items generalizing values with
  | nil =>
    cases h
    rfl
  | cons item items ih =>
    rw [List.mapM_cons] at h
    obtain ⟨v, -, others⟩ := Option.bind_eq_some_iff.1 h
    obtain ⟨rest, read, same⟩ := Option.bind_eq_some_iff.1 others
    cases same
    exact congrArg (· + 1) (ih read)

theorem mapM_set {items : List Expr} {values : List Value} (h : items.mapM of? = some values)
    {place : Nat} (inside : place < items.length) (expr : Expr) :
    (items.set place expr).mapM of? = (of? expr).map (values.set place) := by
  induction items generalizing values place with
  | nil => cases inside
  | cons item items ih =>
    rw [List.mapM_cons] at h
    obtain ⟨v, value, others⟩ := Option.bind_eq_some_iff.1 h
    obtain ⟨rest, read, same⟩ := Option.bind_eq_some_iff.1 others
    cases same
    cases place with
    | zero =>
      rw [List.set_cons_zero, List.mapM_cons, read]
      cases of? expr <;> rfl
    | succ place =>
      rw [List.set_cons_succ, List.mapM_cons, value, ih read (Nat.lt_of_succ_lt_succ inside)]
      cases of? expr <;> rfl

end

/-- What is written last for a field is what stands in the field, and nothing else in the record
depends on it. -/
theorem value_of_lastIn {name : String} {place budget : Nat} {written : Expr → Expr} {other : Expr}
    {v : Value} (h : LastIn name place written)
    (read : (written other).value? (budget + 1) = some v) :
    (∃ w, other.value? budget = some w ∧ v.field? name place = some w) ∧
      ∀ expr, (written expr).value? (budget + 1) =
        (expr.value? budget).map (v.put name place) := by
  cases h with
  | @member key front rest named last =>
    have isNamed (expr : Expr) : Named name (key, expr) := named
    rw [Expr.value?] at read
    obtain ⟨kept, folded, same⟩ := Option.map_eq_some_iff.1 read
    cases same
    refine ⟨lookup_last folded (isNamed other) last, fun expr => ?_⟩
    rw [List.foldlM_append] at folded
    obtain ⟨before, front, folded⟩ := Option.bind_eq_some_iff.1 folded
    rw [List.foldlM_cons, putMember_named (isNamed other)] at folded
    obtain ⟨behind, put, folded⟩ := Option.bind_eq_some_iff.1 folded
    obtain ⟨w, -, rfl⟩ := Option.map_eq_some_iff.1 put
    rw [Expr.value?, List.foldlM_append, front, Option.bind_eq_bind, Option.bind_some,
      List.foldlM_cons, putMember_named (isNamed expr), keepMember]
    cases expr.value? budget with
    | none => rfl
    | some w' =>
      have replaced := @foldlM_insert (Expr.value? budget) name rest last (before.insert name w) w'
      rw [Members.insert_insert, folded] at replaced
      exact congrArg (Option.map Value.object) replaced
  | @item items inside =>
    rw [Expr.value?] at read
    obtain ⟨values, each, same⟩ := Option.map_eq_some_iff.1 read
    cases same
    have stands : (items.set place other)[place]? = some other := List.getElem?_set_self inside
    refine ⟨mapM_getElem each stands, fun expr => ?_⟩
    have inside' : place < (items.set place other).length := by rwa [List.length_set]
    have replaced := mapM_set each inside' expr
    rw [List.set_set] at replaced
    rw [Expr.value?, replaced, Option.map_map]
    rfl

end Json

open Json

namespace Sample

theorem fields_iff {raw value : Value} {kind : String} : Fields raw kind value ↔
    raw.IsRecord 2 ∧ raw.field? "type" 0 = some (.string kind) ∧
      value = (raw.field? "value" 1).getD .null := by
  constructor
  · rintro (named | - | -)
    · exact ⟨trivial, named, rfl⟩
    · exact ⟨Nat.le_succ 1, rfl, rfl⟩
    · exact ⟨Nat.le_refl 2, rfl, rfl⟩
  · rintro ⟨isRecord, isKind, rfl⟩
    cases raw with
    | object members => exact .object isKind
    | array items =>
      rcases items with _ | ⟨first, _ | ⟨second, _ | ⟨third, rest⟩⟩⟩
      · cases isKind
      · obtain rfl : first = .string kind := Option.some.inj isKind
        exact .alone kind
      · obtain rfl : first = .string kind := Option.some.inj isKind
        exact .pair kind second
      · simp only [Value.IsRecord, List.length_cons] at isRecord
        omega
    | null | boolean | number | string => cases isRecord

theorem decoFields_iff {value : Value} {status : String} {time depth : Option Value} :
    DecoFields value status time depth ↔ value.IsRecord 3 ∧
      value.field? "status" 0 = some (.string status) ∧ time = value.field? "time" 1 ∧
      depth = value.field? "depth" 2 := by
  constructor
  · rintro (named | ⟨-, short⟩)
    · exact ⟨trivial, named, rfl, rfl⟩
    · exact ⟨Nat.succ_le_succ short, rfl, rfl, rfl⟩
  · rintro ⟨isRecord, isStatus, rfl, rfl⟩
    cases value with
    | object members => exact .object isStatus
    | array items =>
      cases items with
      | nil => cases isStatus
      | cons first rest =>
        obtain rfl : first = .string status := Option.some.inj isStatus
        exact .list status (Nat.le_of_succ_le_succ isRecord)
    | null | boolean | number | string => cases isRecord

theorem Fields.put {raw value v : Value} {kind : String} (h : Fields raw kind value)
    (has : raw.field? "value" 1 = some v) (w : Value) : Fields (raw.put "value" 1 w) kind w := by
  obtain ⟨isRecord, isKind, -⟩ := fields_iff.1 h
  refine fields_iff.2 ⟨Value.isRecord_put.2 isRecord, ?_, ?_⟩
  · rw [Value.field_put_other (by decide) (by decide), isKind]
  · rw [Value.field_put has]
    rfl

theorem DecoFields.put {value v : Value} {status : String} {time depth : Option Value}
    (h : DecoFields value status time depth) (has : value.field? "time" 1 = some v) (w : Value) :
    DecoFields (value.put "time" 1 w) status (some w) depth := by
  obtain ⟨isRecord, isStatus, -, isDepth⟩ := decoFields_iff.1 h
  refine decoFields_iff.2 ⟨Value.isRecord_put.2 isRecord, ?_, (Value.field_put has w).symm, ?_⟩
  · rw [Value.field_put_other (by decide) (by decide), isStatus]
  · rw [Value.field_put_other (by decide) (by decide), isDepth]

end Sample

end DiveTable
