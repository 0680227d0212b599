/-! Cutting a text at a separator. -/
namespace DiveTable

/-- The parts of a text between separators; a text without one is a single part. -/
def splitAt (separator : Char) : List Char → List (List Char)
  | [] => [[]]
  | c :: rest =>
    if c = separator then [] :: splitAt separator rest
    else match splitAt separator rest with
      | [] => [[c]]
      | part :: parts => (c :: part) :: parts

def cutAt (separator : Char) : List Char → List Char × Option (List Char)
  | [] => ([], none)
  | c :: rest =>
    if c = separator then ([], some rest)
    else ((c :: (cutAt separator rest).1), (cutAt separator rest).2)

theorem splitAt_ne_nil (separator : Char) (text : List Char) : splitAt separator text ≠ [] := by
  cases text with
  | nil => simp [splitAt]
  | cons c rest =>
    unfold splitAt
    split
    · simp
    · split <;> simp

theorem intercalate_splitAt (separator : Char) (text : List Char) :
    [separator].intercalate (splitAt separator text) = text := by
  induction text with
  | nil => rfl
  | cons c rest ih =>
    unfold splitAt
    split
    · rename_i h
      subst h
      cases hs : splitAt c rest with
      | nil => exact absurd hs (splitAt_ne_nil c rest)
      | cons part parts => rw [hs] at ih; simp [List.intercalate_cons_cons, ih]
    · cases hs : splitAt separator rest with
      | nil => exact absurd hs (splitAt_ne_nil separator rest)
      | cons part parts =>
        rw [hs] at ih
        cases parts with
        | nil => simpa using ih
        | cons p ps => simpa [List.intercalate_cons_cons] using ih

theorem splitAt_of_not_mem {separator : Char} {part : List Char} (h : separator ∉ part) :
    splitAt separator part = [part] := by
  induction part with
  | nil => rfl
  | cons c rest ih =>
    simp only [List.mem_cons, not_or] at h
    simp [splitAt, Ne.symm h.1, ih h.2]

/-- What stands in front of a separator is a part of its own. -/
theorem splitAt_append {separator : Char} {part : List Char} (h : separator ∉ part)
    (rest : List Char) :
    splitAt separator (part ++ separator :: rest) = part :: splitAt separator rest := by
  induction part with
  | nil => simp [splitAt]
  | cons c part ih =>
    simp only [List.mem_cons, not_or] at h
    simp [splitAt, Ne.symm h.1, ih h.2]

theorem splitAt_intercalate {separator : Char} {parts : List (List Char)} (ne : parts ≠ [])
    (h : ∀ part ∈ parts, separator ∉ part) :
    splitAt separator ([separator].intercalate parts) = parts := by
  induction parts with
  | nil => exact absurd rfl ne
  | cons part rest ih =>
    have hpart := h part List.mem_cons_self
    cases rest with
    | nil => simpa using splitAt_of_not_mem hpart
    | cons next rest =>
      rw [List.intercalate_cons_cons, List.append_assoc, List.singleton_append,
        splitAt_append hpart, ih (by simp) fun p hp => h p (List.mem_cons_of_mem _ hp)]

theorem not_mem_of_mem_splitAt {separator : Char} {text part : List Char}
    (h : part ∈ splitAt separator text) : separator ∉ part := by
  induction text generalizing part with
  | nil => simp_all [splitAt]
  | cons c rest ih =>
    unfold splitAt at h
    split at h
    · rcases List.mem_cons.1 h with rfl | h
      · exact List.not_mem_nil
      · exact ih h
    · rename_i hc
      cases hs : splitAt separator rest with
      | nil => exact absurd hs (splitAt_ne_nil separator rest)
      | cons first others =>
        rw [hs] at h
        rcases List.mem_cons.1 h with rfl | h
        · have hfirst : separator ∉ first := ih (hs ▸ List.mem_cons_self)
          simp [Ne.symm hc, hfirst]
        · exact ih (hs ▸ List.mem_cons_of_mem _ h)

theorem mem_intercalate {separator c : Char} {parts : List (List Char)}
    (h : c ∈ [separator].intercalate parts) : (∃ part ∈ parts, c ∈ part) ∨ c = separator := by
  induction parts with
  | nil => cases h
  | cons part rest ih =>
    cases rest with
    | nil => exact .inl ⟨part, List.mem_cons_self, by simpa using h⟩
    | cons next rest =>
      rw [List.intercalate_cons_cons, List.mem_append, List.mem_append, List.mem_singleton] at h
      rcases h with (mem | same) | later
      · exact .inl ⟨part, List.mem_cons_self, mem⟩
      · exact .inr same
      · rcases ih later with ⟨other, inside, mem⟩ | same
        · exact .inl ⟨other, List.mem_cons_of_mem _ inside, mem⟩
        · exact .inr same

theorem cutAt_eq (separator : Char) (text : List Char) :
    text = (cutAt separator text).1 ++
      ((cutAt separator text).2.map (separator :: ·)).getD [] := by
  induction text with
  | nil => rfl
  | cons c rest ih =>
    unfold cutAt
    split
    · rename_i hc
      simp [hc]
    · simpa using ih

theorem cutAt_of_not_mem {separator : Char} {text : List Char} (h : separator ∉ text) :
    cutAt separator text = (text, none) := by
  induction text with
  | nil => rfl
  | cons c rest ih =>
    simp only [List.mem_cons, not_or] at h
    simp [cutAt, Ne.symm h.1, ih h.2]

theorem cutAt_append {separator : Char} {front : List Char} (h : separator ∉ front)
    (rest : List Char) : cutAt separator (front ++ separator :: rest) = (front, some rest) := by
  induction front with
  | nil => simp [cutAt]
  | cons c front ih =>
    simp only [List.mem_cons, not_or] at h
    simp [cutAt, Ne.symm h.1, ih h.2]

end DiveTable
