import DiveTable.Files.Tree

/-! # Absolute paths

What stands in a tree is asked for by its absolute path, which is longer than those of all
directories it stands in. So a way that never steps up can be asked for if its end can:
`fitsAbsolute_concat`. -/
namespace DiveTable.Tree

/-- A slash stands in front of each name. -/
theorem size_placeText_concat {place : Place} (ne : place ≠ []) (name : String) :
    (placeText (place ++ [name])).utf8ByteSize =
      (placeText place).utf8ByteSize + (name.utf8ByteSize + 1) := by
  have slash : "/".utf8ByteSize = 1 := rfl
  induction place with
  | nil => exact absurd rfl ne
  | cons first rest ih =>
    cases rest with
    | nil =>
      simp only [placeText, List.cons_append, List.nil_append, String.intercalate_cons_cons,
        String.intercalate_singleton, String.utf8ByteSize_append, slash]
      omega
    | cons next rest =>
      have inner := ih (by simp)
      simp only [placeText, List.cons_append, String.intercalate_cons_cons,
        String.utf8ByteSize_append] at inner ⊢
      omega

theorem size_placeText_le {place : Place} (ne : place ≠ []) (below : List String) :
    (placeText place).utf8ByteSize ≤ (placeText (place ++ below)).utf8ByteSize := by
  induction below generalizing place with
  | nil => simp
  | cons name below ih =>
    have further := @ih (place ++ [name]) (by simp)
    rw [size_placeText_concat ne, List.append_assoc] at further
    exact Nat.le_trans (Nat.le_add_right _ _) further

theorem size_placeText_replicate (count : Nat) (name : String) :
    (placeText (List.replicate (count + 1) name)).utf8ByteSize =
      (count + 1) * (name.utf8ByteSize + 1) := by
  induction count with
  | zero =>
    have slash : "/".utf8ByteSize = 1 := rfl
    simp [placeText, slash, Nat.add_comm]
  | succ count ih =>
    rw [List.replicate_succ', size_placeText_concat (by simp), ih, Nat.succ_mul (count + 1)]

theorem exists_below_of_no_up {place goal : Place} {steps : List Step} (down : Step.up ∉ steps)
    (h : goal = steps.foldl Step.apply place) : ∃ below, goal = place ++ below := by
  induction steps generalizing place with
  | nil => exact ⟨[], by simpa using h⟩
  | cons step steps ih =>
    obtain ⟨below, hbelow⟩ := ih (fun mem => down (List.mem_cons_of_mem _ mem)) h
    cases step with
    | stay => exact ⟨below, hbelow⟩
    | up => exact absurd List.mem_cons_self down
    | down name => exact ⟨name :: below, by simpa [Step.apply] using hbelow⟩

/-- A way down to a name fits if the path of that name does. -/
theorem fitsAbsolute_concat {place : Place} {steps : List Step} {name : String}
    (down : Step.up ∉ steps) :
    fitsAbsolute place (steps ++ [.down name]) = true ↔
      (placeText (steps.foldl Step.apply place ++ [name])).utf8ByteSize ≤ longestPath := by
  induction steps generalizing place with
  | nil => simp [fitsAbsolute]
  | cons step steps ih =>
    have later := @ih (step.apply place) fun mem => down (List.mem_cons_of_mem _ mem)
    cases step with
    | up => exact absurd List.mem_cons_self down
    | stay => simpa [fitsAbsolute] using later
    | down first =>
      obtain ⟨below, goal⟩ := exists_below_of_no_up
        (fun mem => down (List.mem_cons_of_mem _ mem)) (Eq.refl (steps.foldl Step.apply _))
      rw [List.cons_append, fitsAbsolute, Bool.and_eq_true, later, List.foldl_cons]
      -- the path of a directory is shorter than what stands in it, its slash included
      have shorter : (placeText (place ++ [first])).utf8ByteSize + 1 ≤
          (placeText (steps.foldl Step.apply ((Step.down first).apply place) ++
            [name])).utf8ByteSize := by
        have deep : place ++ [first] ++ below ≠ [] := by simp
        have above := @size_placeText_le (place ++ [first]) (by simp) below
        rw [goal, Step.apply, size_placeText_concat deep]
        omega
      constructor
      · intro both
        exact both.2
      · intro fits
        have more : steps ++ [.down name] ≠ [] := by simp
        refine ⟨?_, fits⟩
        simpa only [if_neg more, decide_eq_true_eq] using Nat.le_trans shorter fits

end DiveTable.Tree
