import DiveTable.Files.Path

/-! # The segments of a path

A path is put together from segments and falls apart into them again. The path of a table keeps
the segments in front of the name of its input, but for those that count for nothing. -/
namespace DiveTable

/-- A separator between two texts divides their parts. -/
theorem splitAt_append_separator (separator : Char) (front back : List Char) :
    splitAt separator (front ++ separator :: back) =
      splitAt separator front ++ splitAt separator back := by
  induction front with
  | nil => simp [splitAt]
  | cons c front ih =>
    rw [List.cons_append, splitAt, splitAt]
    by_cases hc : c = separator
    · simp [hc, ih]
    · rw [if_neg hc, if_neg hc, ih]
      cases h : splitAt separator front with
      | nil => exact absurd h (splitAt_ne_nil separator front)
      | cons part parts => rfl

namespace Path

theorem not_mem_of_mem_segments {path : String} {segment : Segment} (h : segment ∈ segments path) :
    '/' ∉ segment :=
  not_mem_of_mem_splitAt h

theorem segments_ne_nil (path : String) : segments path ≠ [] := splitAt_ne_nil '/' path.toList

theorem segments_ofSegments {parts : List Segment} (ne : parts ≠ []) (h : ∀ s ∈ parts, '/' ∉ s) :
    segments (ofSegments parts) = parts := by
  rw [segments, ofSegments, String.toList_ofList]
  exact splitAt_intercalate ne h

theorem segments_name {name : Segment} (h : '/' ∉ name) :
    segments (String.ofList name) = [name] := by
  rw [segments, String.toList_ofList, splitAt_of_not_mem h]

/-- A base ends with a slash if its last segment is empty. -/
theorem getLast_segments_of_slash {base : String} (h : base.toList.getLast? = some '/') :
    (segments base).getLast? = some [] := by
  obtain ⟨front, hfront⟩ := List.getLast?_eq_some_iff.1 h
  rw [segments, hfront, splitAt_append_separator]
  simp [splitAt]

/-- A name joined to a base that ends with a slash stands in the place of its last segment, which
is empty. -/
theorem segments_join_slash {base : String} {name : Segment} (hname : '/' ∉ name)
    (slash : base.toList.getLast? = some '/') :
    ∃ front, front ≠ [] ∧ segments base = front ++ [[]] ∧
      segments (join base (String.ofList name)) = front ++ [name] := by
  obtain ⟨front, hfront⟩ := List.getLast?_eq_some_iff.1 slash
  refine ⟨splitAt '/' front, splitAt_ne_nil '/' front, ?_, ?_⟩
  · rw [segments, hfront, splitAt_append_separator]
    simp [splitAt]
  · rw [join, if_pos (.inr slash), segments]
    simp [hfront, splitAt_append_separator, splitAt_of_not_mem hname]

theorem segments_join_open {base : String} {name : Segment} (hname : '/' ∉ name)
    (nonempty : base ≠ "") (noSlash : base.toList.getLast? ≠ some '/') :
    segments (join base (String.ofList name)) = segments base ++ [name] := by
  rw [join, if_neg (by simp [nonempty, noSlash]), segments]
  simp only [String.toList_append, String.toList_ofList]
  rw [show ("/" : String).toList = ['/'] from rfl, List.append_assoc, List.singleton_append,
    splitAt_append_separator, splitAt_of_not_mem hname]
  rfl

theorem segments_join {base : String} {name : Segment} (hname : '/' ∉ name)
    (hbase : (segments base).getLast? ≠ some []) :
    segments (join base (String.ofList name)) = segments base ++ [name] := by
  apply segments_join_open hname
  · rintro rfl
    exact hbase rfl
  · intro slash
    exact hbase (getLast_segments_of_slash slash)

theorem dropIdle_ne_nil {parts : List Segment} (ne : parts ≠ []) : dropIdle parts ≠ [] := by
  induction parts with
  | nil => exact absurd rfl ne
  | cons last rest ih =>
    cases rest with
    | nil => simp [dropIdle]
    | cons next rest =>
      unfold dropIdle
      split
      · exact ih (by simp)
      · simp

/-- What is dropped counts for nothing. -/
theorem exists_idle (parts : List Segment) :
    ∃ idle, (∀ s ∈ idle, s = [] ∨ s = here) ∧ parts = idle ++ dropIdle parts := by
  induction parts with
  | nil => exact ⟨[], by simp, rfl⟩
  | cons last rest ih =>
    cases rest with
    | nil => exact ⟨[], by simp, rfl⟩
    | cons next rest =>
      unfold dropIdle
      split
      · rename_i counts
        obtain ⟨idle, hidle, heq⟩ := ih
        refine ⟨last :: idle, ?_, by rw [List.cons_append, ← heq]⟩
        intro s hs
        rcases List.mem_cons.1 hs with rfl | hs
        · exact counts
        · exact hidle s hs
      · exact ⟨[], by simp, rfl⟩

theorem mem_of_mem_dropIdle {parts : List Segment} {segment : Segment}
    (h : segment ∈ dropIdle parts) : segment ∈ parts := by
  obtain ⟨idle, -, heq⟩ := exists_idle parts
  rw [heq]
  exact List.mem_append_right idle h

theorem head_dropIdle {parts : List Segment} (h : (dropIdle parts).head? = some []) :
    dropIdle parts = [[]] := by
  induction parts with
  | nil => cases h
  | cons last rest ih =>
    cases rest with
    | nil => simpa [dropIdle] using h
    | cons next rest =>
      unfold dropIdle at h ⊢
      split at h
      · rename_i counts
        rw [if_pos counts]
        exact ih h
      · rename_i counts
        simp only [List.head?_cons, Option.some.injEq] at h
        exact absurd (.inl h) counts

/-- The segments of what is above a path stand in front of those of the path; the root is written
with one segment more. -/
theorem segments_parent {path parent : String} (above : parent? path = some parent)
    (named : parent ≠ "") :
    ∃ front back, segments path = front ++ back ∧ front ≠ [] ∧
      (segments parent = front ∨ front = [[]] ∧ parent = "/") := by
  obtain ⟨idle, -, parts⟩ := exists_idle (segments path).reverse
  unfold parent? at above
  cases kept : dropIdle (segments path).reverse with
  | nil => simp [kept] at above
  | cons last rest =>
    cases rest with
    | nil =>
      simp only [kept, Option.ite_none_left_eq_some, Option.some.injEq] at above
      exact absurd above.2.symm named
    | cons next rest =>
      obtain ⟨between, -, inner⟩ := exists_idle (next :: rest)
      have ne : dropIdle (next :: rest) ≠ [] := dropIdle_ne_nil (by simp)
      have turned : (segments path).reverse =
          idle ++ last :: (between ++ dropIdle (next :: rest)) := by
        rw [← inner, ← kept, ← parts]
      have whole : segments path = (dropIdle (next :: rest)).reverse ++
          (between.reverse ++ last :: idle.reverse) := by
        rw [← List.reverse_reverse (segments path), turned]
        simp
      refine ⟨_, _, whole, by simpa using ne, ?_⟩
      simp only [kept] at above
      split at above
      · rename_i root
        exact .inr ⟨by rw [root]; rfl, (Option.some.inj above).symm⟩
      · left
        obtain rfl := Option.some.inj above
        refine segments_ofSegments (by simpa using ne) fun s hs => ?_
        have inside : s ∈ segments path := by
          rw [whole]
          exact List.mem_append_left _ hs
        exact not_mem_of_mem_segments inside

theorem not_mem_tableName {name : Segment} (h : '/' ∉ name) : '/' ∉ tableName name := by
  have parts := cutAt_eq '.' name.reverse
  unfold tableName
  split
  · simpa using h
  · simpa using h
  · rename_i front stem _ heq
    split
    · decide
    · rw [heq] at parts
      have inside : '/' ∉ stem := by
        intro mem
        apply h
        rw [← List.mem_reverse, parts]
        simp [mem]
      simpa using inside

/-- The path of a table that goes next to its input. -/
theorem segments_exportPath_none {input : String} {front : List Segment} {last : Segment}
    (h : segments input = front ++ [last]) (named : ¬(last = [] ∨ last = here))
    (notUp : last ≠ up) :
    segments (exportPath input none) = (dropIdle front.reverse).reverse ++ [tableName last] := by
  have pieces : ∀ s ∈ front ++ [last], '/' ∉ s := fun s hs => not_mem_of_mem_segments (h ▸ hs)
  have name : '/' ∉ tableName last := not_mem_tableName (pieces last (by simp))
  have reversed : (segments input).reverse = last :: front.reverse := by simp [h]
  have kept : dropIdle (last :: front.reverse) = last :: front.reverse := by
    cases front.reverse with
    | nil => rfl
    | cons next rest => simp only [dropIdle, if_neg named]
  have file : fileName? input = some last := by
    rw [fileName?, reversed, kept]
    dsimp only
    rw [if_neg (by simpa [notUp] using named)]
  unfold exportPath
  rw [file]
  dsimp only
  rw [parent?, reversed, kept]
  cases hfront : front.reverse with
  | nil =>
    have nonempty : last ≠ [] := fun e => named (.inl e)
    simp only [if_neg nonempty, dropIdle]
    rw [join, if_pos (by simp), String.empty_append, segments_name name]
    rfl
  | cons next rest =>
    dsimp only
    have ne : dropIdle (next :: rest) ≠ [] := dropIdle_ne_nil (by simp)
    by_cases root : dropIdle (next :: rest) = [[]]
    · rw [if_pos root, root]
      show segments (join "/" (String.ofList (tableName last))) = [[], tableName last]
      have text : ("/" ++ String.ofList (tableName last)).toList = '/' :: tableName last := by
        simp
      rw [join, if_pos (.inr rfl), segments, text, splitAt, if_pos rfl, splitAt_of_not_mem name]
    · rw [if_neg root]
      have above : segments (ofSegments (dropIdle (next :: rest)).reverse) =
          (dropIdle (next :: rest)).reverse := by
        refine segments_ofSegments (by simpa using ne) fun s hs => ?_
        have inside := mem_of_mem_dropIdle (List.mem_reverse.1 hs)
        rw [← hfront] at inside
        exact pieces s (List.mem_append_left _ (List.mem_reverse.1 inside))
      have closed : (segments (ofSegments (dropIdle (next :: rest)).reverse)).getLast? ≠
          some [] := by
        rw [above, List.getLast?_reverse]
        exact fun hhead => root (head_dropIdle hhead)
      dsimp only
      rw [segments_join name closed, above]

end Path

end DiveTable
