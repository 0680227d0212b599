import DiveTable.Proofs.PathComponents

/-! # Where the table of an input goes

A table is named for its input and stands in the chosen directory. The path of the table is the
path of its own table. One kind of input has no such path: if all that is in front of the extension
of its name is a single point, the table is led to the directory above. -/
namespace DiveTable.Path

/-- A name is cut at its last point, which is not its first character. -/
structure Extended (name stem extension : Segment) : Prop where
  cut : name = stem ++ '.' :: extension
  stem_ne_nil : stem ≠ []
  noPoint : '.' ∉ extension

/-- How a table is named for the name of its input. -/
inductive Titled : Option Segment → Segment → Prop
  | replaced {name stem extension : Segment} (h : Extended name stem extension) :
    Titled (some name) (stem ++ ".csv".toList)
  | added {name : Segment} (h : ∀ stem extension, ¬Extended name stem extension) :
    Titled (some name) (name ++ ".csv".toList)
  | given : Titled none defaultTableName.toList

/-- The directory that a table goes to: the chosen one, else the one its input is in. -/
def tableDirectory (input : String) (outputDir : Option String) : String :=
  outputDir.getD ((parent? input).getD "")

theorem tableDirectory_none (input : String) :
    tableDirectory input none = (parent? input).getD "" := rfl

def tableFile (input : String) : Segment :=
  ((fileName? input).map tableName).getD defaultTableName.toList

/-- The name of the input has an extension, and a single point for a stem. -/
def OnlyPoint (input : String) : Prop :=
  ∃ name extension, fileName? input = some name ∧ Extended name here extension

/-! ## The name of a table -/

theorem extended_or_not (name : Segment) :
    (∃ stem extension, Extended name stem extension) ∨
      '.' ∉ name ∨ ∃ rest, '.' ∉ rest ∧ name = '.' :: rest := by
  by_cases point : '.' ∈ name
  · have inside : '.' ∈ name.reverse := by simpa using point
    obtain ⟨after, before, parts, notBefore⟩ := List.eq_append_cons_of_mem inside
    have cut : name = before.reverse ++ '.' :: after.reverse := by
      rw [← List.reverse_reverse name, parts]
      simp
    by_cases empty : before = []
    · exact .inr (.inr ⟨after.reverse, by simpa using notBefore, by simpa [empty] using cut⟩)
    · exact .inl ⟨_, _, cut, by simpa using empty, by simpa using notBefore⟩
  · exact .inr (.inl point)

theorem cutAt_reverse (stem : Segment) {extension : Segment} (noPoint : '.' ∉ extension) :
    cutAt '.' (stem ++ '.' :: extension).reverse = (extension.reverse, some stem.reverse) := by
  have turned : (stem ++ '.' :: extension).reverse = extension.reverse ++ '.' :: stem.reverse := by
    simp
  rw [turned, cutAt_append (by simpa using noPoint)]

theorem tableName_extended {name stem extension : Segment} (h : Extended name stem extension) :
    tableName name = if stem = here then up else stem ++ ".csv".toList := by
  obtain ⟨c, rest, turned⟩ := List.exists_cons_of_ne_nil (List.reverse_ne_nil_iff.2 h.stem_ne_nil)
  have back : stem = (c :: rest).reverse := by rw [← turned, List.reverse_reverse]
  have isHere : c :: rest = here ↔ stem = here := by
    rw [back, List.reverse_eq_iff]
    rfl
  rw [tableName, h.cut, cutAt_reverse stem h.noPoint, turned]
  simp only [isHere, ← back]

theorem tableName_of_not_extended {name : Segment}
    (h : ∀ stem extension, ¬Extended name stem extension) :
    tableName name = name ++ ".csv".toList := by
  rcases extended_or_not name with ⟨stem, extension, extended⟩ | noPoint | ⟨rest, noPoint, hidden⟩
  · exact absurd extended (h stem extension)
  · rw [tableName, cutAt_of_not_mem (by simpa using noPoint)]
  · have cut : cutAt '.' name.reverse = (rest.reverse, some []) := by
      rw [hidden]
      exact cutAt_reverse [] noPoint
    rw [tableName, cut]

/-- A table is its own name's table. -/
theorem tableName_csv {stem : Segment} (ne : stem ≠ []) (notHere : stem ≠ here) :
    tableName (stem ++ ".csv".toList) = stem ++ ".csv".toList := by
  have extended : Extended (stem ++ ".csv".toList) stem "csv".toList := ⟨rfl, ne, by decide⟩
  rw [tableName_extended extended, if_neg notHere]

theorem Extended.unique {name stem extension stem' extension' : Segment}
    (h : Extended name stem extension) (h' : Extended name stem' extension') :
    stem = stem' ∧ extension = extension' := by
  have cuts := cutAt_reverse stem h.noPoint
  rw [← h.cut, h'.cut, cutAt_reverse stem' h'.noPoint] at cuts
  simp only [Prod.mk.injEq, Option.some.injEq, List.reverse_inj] at cuts
  exact ⟨cuts.2.symm, cuts.1.symm⟩

/-! ## The file of a table -/

theorem named_of_fileName {path : String} {name : Segment} (h : fileName? path = some name) :
    '/' ∉ name ∧ name ≠ [] ∧ name ≠ here ∧ name ≠ up := by
  unfold fileName? at h
  cases kept : dropIdle (segments path).reverse with
  | nil => simp [kept] at h
  | cons last rest =>
    simp only [kept, Option.ite_none_left_eq_some, Option.some.injEq, not_or] at h
    obtain ⟨named, rfl⟩ := h
    have inside : last ∈ dropIdle (segments path).reverse := by simp [kept]
    exact ⟨not_mem_of_mem_segments (List.mem_reverse.1 (mem_of_mem_dropIdle inside)), named⟩

theorem not_mem_tableFile (input : String) : '/' ∉ tableFile input := by
  unfold tableFile
  cases file : fileName? input with
  | none => decide
  | some name => exact not_mem_tableName (named_of_fileName file).1

theorem tableFile_of_onlyPoint {input : String} (h : OnlyPoint input) : tableFile input = up := by
  obtain ⟨name, extension, file, extended⟩ := h
  rw [tableFile, file]
  simp [tableName_extended extended]

/-- But for the name that is cut back to two points, what is in front of `.csv` is a name. -/
theorem titled_tableFile {input : String} (h : ¬OnlyPoint input) :
    Titled (fileName? input) (tableFile input) ∧
      ∃ stem, stem ≠ [] ∧ stem ≠ here ∧ tableFile input = stem ++ ".csv".toList := by
  unfold tableFile
  cases file : fileName? input with
  | none => exact ⟨.given, "output".toList, by decide, by decide, by decide⟩
  | some name =>
    obtain ⟨-, ne, notHere, -⟩ := named_of_fileName file
    show Titled (some name) (tableName name) ∧
      ∃ stem, stem ≠ [] ∧ stem ≠ here ∧ tableName name = stem ++ ".csv".toList
    by_cases extended : ∃ stem extension, Extended name stem extension
    · obtain ⟨stem, extension, extended⟩ := extended
      have wide : stem ≠ here := by
        rintro rfl
        exact h ⟨name, extension, file, extended⟩
      have title : tableName name = stem ++ ".csv".toList := by
        rw [tableName_extended extended, if_neg wide]
      rw [title]
      exact ⟨.replaced extended, stem, extended.stem_ne_nil, wide, rfl⟩
    · have none' : ∀ stem extension, ¬Extended name stem extension := by simpa using extended
      rw [tableName_of_not_extended none']
      exact ⟨.added none', name, ne, notHere, rfl⟩

/-- The table has the name of its input if that ends with its extension already. -/
theorem titled_eq_iff {file name : Segment} (h : Titled (some file) name) :
    name = file ↔ ∃ stem, Extended file stem "csv".toList := by
  cases h with
  | @replaced _ stem extension extended =>
    constructor
    · intro same
      have whole : Extended file stem "csv".toList :=
        ⟨same.symm, extended.stem_ne_nil, by decide⟩
      exact ⟨stem, whole⟩
    · rintro ⟨stem', other⟩
      obtain ⟨rfl, rfl⟩ := extended.unique other
      exact extended.cut.symm
  | added none' =>
    constructor
    · intro same
      simp at same
    · rintro ⟨stem, extended⟩
      exact absurd extended (none' stem _)

theorem exportPath_eq (input : String) (outputDir : Option String) :
    exportPath input outputDir =
      join (tableDirectory input outputDir) (String.ofList (tableFile input)) := by
  unfold exportPath tableDirectory tableFile
  cases fileName? input <;> cases outputDir <;> cases parent? input <;> simp

example : exportPath "dives//./.log.tar/." (some "out/..") = "out/../.log.csv" := by decide

theorem components_exportPath {input : String} {c : Component}
    (counts : component? (tableFile input) = some c) (outputDir : Option String) :
    components (exportPath input outputDir) =
      components (tableDirectory input outputDir) ++ [c] := by
  rw [exportPath_eq, components_join (not_mem_tableFile input) counts]

theorem above_directory (input : String) :
    Above (tableDirectory input none) (components input).dropLast := by
  rw [tableDirectory_none]
  rcases view input with ⟨parts, -, top⟩ | ⟨parts, -, top⟩ | ⟨parts, -, -, -, parent, isAbove⟩
  · simpa [top, parts] using Above.empty
  · simpa [top, parts] using Above.empty
  · simpa [parent, parts] using isAbove

theorem csv_ne (stem : Segment) {short : Segment} (h : short.length < 4) :
    stem ++ ".csv".toList ≠ short := by
  have long : (stem ++ ".csv".toList).length = stem.length + 4 := by simp
  rintro rfl
  omega

theorem component_csv (stem : Segment) :
    component? (stem ++ ".csv".toList) = some (.name (stem ++ ".csv".toList)) := by
  have named : ¬(stem ++ ".csv".toList = [] ∨ stem ++ ".csv".toList = here) :=
    not_or.2 ⟨csv_ne stem (by decide), csv_ne stem (by decide)⟩
  rw [component_of_named named, Component.ofNamed, if_neg (csv_ne stem (by decide))]

/-- What the path of a table is, but for the inputs with a single point as their stem. -/
structure IsTablePath (input : String) (outputDir : Option String) (path : String)
    (name : Segment) : Prop where
  title : Titled (fileName? input) name
  ends : ".csv".toList <:+ name
  named : fileName? path = some name
  inside : components path = components (tableDirectory input outputDir) ++ [.name name]
  above : ∃ above, parent? path = some above ∧
    components above = components (tableDirectory input outputDir)
  again : exportPath path outputDir = path

section

variable {input : String} (stemmed : ¬OnlyPoint input) (outputDir : Option String)
include stemmed

theorem component_tableFile : component? (tableFile input) = some (.name (tableFile input)) := by
  obtain ⟨-, stem, -, -, title⟩ := titled_tableFile stemmed
  rw [title]
  exact component_csv stem

theorem inside_directory : components (exportPath input outputDir) =
    components (tableDirectory input outputDir) ++ [.name (tableFile input)] :=
  components_exportPath (component_tableFile stemmed) outputDir

theorem fileName_exportPath : fileName? (exportPath input outputDir) = some (tableFile input) := by
  rw [fileName_eq_some, inside_directory stemmed, List.getLast?_concat]

theorem tableFile_exportPath : tableFile (exportPath input outputDir) = tableFile input := by
  obtain ⟨-, stem, ne, notHere, title⟩ := titled_tableFile stemmed
  rw [tableFile, fileName_exportPath stemmed, title]
  exact tableName_csv ne notHere

/-- The directory of the table of a table is the one that it stands in. -/
theorem tableDirectory_exportPath :
    tableDirectory (exportPath input outputDir) outputDir = tableDirectory input outputDir := by
  cases outputDir with
  | some dir => rfl
  | none =>
    have parent := parent_join (above_directory input) (not_mem_tableFile input)
      (named_of_component (component_tableFile stemmed))
    rw [tableDirectory_none, exportPath_eq, parent, Option.getD_some]

theorem exportPath_exportPath :
    exportPath (exportPath input outputDir) outputDir = exportPath input outputDir := by
  rw [exportPath_eq, tableDirectory_exportPath stemmed, tableFile_exportPath stemmed,
    ← exportPath_eq]

theorem isTablePath :
    IsTablePath input outputDir (exportPath input outputDir) (tableFile input) := by
  obtain ⟨titled, stem, -, -, title⟩ := titled_tableFile stemmed
  have named := fileName_exportPath stemmed outputDir
  have inside := inside_directory stemmed outputDir
  obtain ⟨above, list, parent, isAbove, parts⟩ := parent_of_fileName named
  have front : components above = components (tableDirectory input outputDir) := by
    rw [isAbove.components_eq]
    exact (List.append_inj' (parts.symm.trans inside) rfl).1
  exact ⟨titled, ⟨stem, title.symm⟩, named, inside, ⟨above, parent, front⟩,
    exportPath_exportPath stemmed outputDir⟩

theorem same_components_iff {file : Segment} (named : fileName? input = some file) :
    components (exportPath input none) = components input ↔
      ∃ stem, Extended file stem "csv".toList := by
  have titled := (titled_tableFile stemmed).1
  rw [named] at titled
  obtain ⟨front, parts⟩ := List.getLast?_eq_some_iff.1 (fileName_eq_some.1 named)
  rw [inside_directory stemmed, (above_directory input).components_eq, parts, List.dropLast_concat,
    ← titled_eq_iff titled]
  simp

end

/-- The table of an input goes into its directory, under the name of the input with the last
extension replaced or one added; it is the table of its own path, and it takes the place of its
input if that has the extension already. Where a single point is the stem of the name, nothing of
this holds: the path ends with two points. -/
theorem exportPath_within_directory (input : String) (outputDir : Option String) :
    (∀ name, fileName? input = some name ↔ (components input).getLast? = some (.name name)) ∧
    (fileName? input = none ↔ components input = [] ∨ components input = [.root] ∨
      components input = [.here] ∨ (components input).getLast? = some .up) ∧
    components (tableDirectory input none) = (components input).dropLast ∧
    (OnlyPoint input → components (exportPath input outputDir) =
      components (tableDirectory input outputDir) ++ [.up]) ∧
    (¬OnlyPoint input →
      (∃ name, IsTablePath input outputDir (exportPath input outputDir) name) ∧
      ∀ file, fileName? input = some file → outputDir = none →
        (components (exportPath input outputDir) = components input ↔
          ∃ stem, Extended file stem "csv".toList)) := by
  refine ⟨fun name => fileName_eq_some, fileName_eq_none, (above_directory input).components_eq,
    ?_, ?_⟩
  · intro onlyPoint
    apply components_exportPath
    rw [tableFile_of_onlyPoint onlyPoint]
    rfl
  · intro stemmed
    refine ⟨⟨_, isTablePath stemmed outputDir⟩, ?_⟩
    rintro file named rfl
    exact same_components_iff stemmed named

theorem exportPath_within_directory_hiddenArchive :
    (OnlyPoint "dives/..log" ∧ components (exportPath "dives/..log" none) =
      [.name "dives".toList, .up]) ∧
    ¬OnlyPoint "dives//./.log.tar/." ∧
      ∃ name, IsTablePath "dives//./.log.tar/." (some "out/..")
        (exportPath "dives//./.log.tar/." (some "out/..")) name := by
  have pointed : OnlyPoint "dives/..log" :=
    ⟨"..log".toList, "log".toList, by decide, by decide, by decide, by decide⟩
  have stemmed : ¬OnlyPoint "dives//./.log.tar/." := by
    rintro ⟨name, extension, file, extended⟩
    have isName : fileName? "dives//./.log.tar/." = some ".log.tar".toList := by decide
    obtain rfl := Option.some.inj (isName.symm.trans file)
    cases extended.cut
  have below := exportPath_within_directory "dives/..log" none
  have within := exportPath_within_directory "dives//./.log.tar/." (some "out/..")
  have dives : components (tableDirectory "dives/..log" none) = [.name "dives".toList] := by decide
  refine ⟨⟨pointed, ?_⟩, stemmed, (within.2.2.2.2 stemmed).1⟩
  rw [below.2.2.2.1 pointed, dives]
  rfl

/-- The path of this table names no file, and the table of the table goes somewhere else. -/
theorem pointed_name_lost :
    fileName? "..foo" = some "..foo".toList ∧ Extended "..foo".toList ".".toList "foo".toList ∧
      exportPath "..foo" (some "out") = "out/.." ∧
      fileName? (exportPath "..foo" (some "out")) = none ∧
      exportPath (exportPath "..foo" (some "out")) (some "out") = "out/output.csv" :=
  ⟨by decide, ⟨by decide, by decide, by decide⟩, by decide, by decide, by decide⟩

end DiveTable.Path
