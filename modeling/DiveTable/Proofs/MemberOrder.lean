import DiveTable.Proofs.SpelledValues

/-! # Entries in another order

Entries are put into a state one after the other, and one that cannot be put in spoils the whole.
Where any two of them may change places, their order does not matter. Members of an object that is
kept may change places when their keys are different. -/
namespace DiveTable.Json

section

variable {σ α : Type} {put : σ → α → Option σ}

def Commute (put : σ → α → Option σ) (a b : α) : Prop :=
  ∀ state, (put state a).bind (put · b) = (put state b).bind (put · a)

theorem Commute.symm {a b : α} (h : Commute put a b) : Commute put b a :=
  fun state => (h state).symm

theorem foldlM_perm {entries entries' : List α} (h : entries.Perm entries')
    (commute : entries.Pairwise (Commute put)) (state : σ) :
    entries.foldlM put state = entries'.foldlM put state := by
  induction h generalizing state with
  | nil => rfl
  | cons a _ ih =>
    rw [List.foldlM_cons, List.foldlM_cons]
    have later := ih (List.pairwise_cons.1 commute).2
    exact congrArg _ (funext later)
  | swap a b rest =>
    have both := (List.pairwise_cons.1 commute).1 a List.mem_cons_self state
    have inner (a b : α) : (put state a >>= fun state => (b :: rest).foldlM put state) =
        (put state a).bind (put · b) >>= fun state => rest.foldlM put state := by
      simp only [List.foldlM_cons, Option.bind_eq_bind, Option.bind_assoc]
    rw [List.foldlM_cons, List.foldlM_cons, inner, inner, both]
  | trans h _ ih ih' =>
    rw [ih commute, ih' (h.pairwise commute Commute.symm)]

/-- An entry counts by what it does to a state. -/
theorem foldlM_replace {a b : α} (same : ∀ state, put state a = put state b)
    (front rest : List α) (state : σ) :
    (front ++ a :: rest).foldlM put state = (front ++ b :: rest).foldlM put state := by
  rw [List.foldlM_append, List.foldlM_append]
  refine congrArg _ (funext fun state => ?_)
  rw [List.foldlM_cons, List.foldlM_cons, same]

/-- An entry that does nothing may be left out. -/
theorem foldlM_leave_out {a : α} (idle : ∀ state, put state a = some state)
    (front rest : List α) (state : σ) :
    (front ++ a :: rest).foldlM put state = (front ++ rest).foldlM put state := by
  rw [List.foldlM_append, List.foldlM_append]
  refine congrArg _ (funext fun state => ?_)
  rw [List.foldlM_cons, idle]
  rfl

/-- An entry that can never be put in spoils the whole. -/
theorem foldlM_spoiled {a : α} (spoils : ∀ state, put state a = none) {entries : List α}
    (h : a ∈ entries) (state : σ) : entries.foldlM put state = none := by
  obtain ⟨front, rest, rfl⟩ := List.append_of_mem h
  rw [List.foldlM_append]
  cases front.foldlM put state with
  | none => rfl
  | some state =>
    change (a :: rest).foldlM put state = none
    rw [List.foldlM_cons, spoils]
    rfl

end

/-! ## Members with different keys -/

theorem lt_or_eq_or_gt (a b : String) : a < b ∨ a = b ∨ b < a := by
  by_cases below : a < b
  · exact .inl below
  · by_cases above : b < a
    · exact .inr (.inr above)
    · exact .inr (.inl (String.le_antisymm (String.not_lt.1 above) (String.not_lt.1 below)))

theorem Members.insert_cons_lt {key k : String} (h : key < k) (value v : Value) (rest : Members) :
    insert key value ((k, v) :: rest) = (key, value) :: (k, v) :: rest := if_pos h

theorem Members.insert_cons_same (key : String) (value v : Value) (rest : Members) :
    insert key value ((key, v) :: rest) = (key, value) :: rest :=
  (if_neg (String.lt_irrefl key)).trans (if_pos rfl)

theorem Members.insert_cons_gt {key k : String} (h : k < key) (value v : Value) (rest : Members) :
    insert key value ((k, v) :: rest) = (k, v) :: insert key value rest :=
  (if_neg (String.lt_asymm h)).trans (if_neg (String.ne_of_lt h).symm)

/-- A member goes in front of every greater key, whether its place is taken or not. -/
theorem Members.insert_of_lt {key other : String} (h : key < other) (value value' : Value)
    (members : Members) :
    (members.insert key value).insert other value' =
      (members.insert other value').insert key value := by
  induction members with
  | nil =>
    change insert other value' [(key, value)] = insert key value [(other, value')]
    rw [insert_cons_gt h, insert_cons_lt h]
    rfl
  | cons member rest ih =>
    obtain ⟨k, v⟩ := member
    rcases lt_or_eq_or_gt key k with below | rfl | above
    · rw [insert_cons_lt below, insert_cons_gt h]
      rcases lt_or_eq_or_gt other k with below' | rfl | above'
      · rw [insert_cons_lt below', insert_cons_lt h]
      · rw [insert_cons_same, insert_cons_lt h]
      · rw [insert_cons_gt above', insert_cons_lt below]
    · rw [insert_cons_same, insert_cons_gt h, insert_cons_gt h, insert_cons_same]
    · have above' := String.lt_trans above h
      rw [insert_cons_gt above, insert_cons_gt above', insert_cons_gt above',
        insert_cons_gt above, ih]

theorem Members.insert_comm {key other : String} (h : key ≠ other) (value value' : Value)
    (members : Members) :
    (members.insert key value).insert other value' =
      (members.insert other value').insert key value := by
  rcases lt_or_eq_or_gt key other with before | same | behind
  · exact insert_of_lt before value value' members
  · exact absurd same h
  · exact (insert_of_lt behind value' value members).symm

end DiveTable.Json
