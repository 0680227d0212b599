import DiveTable.Proofs.InputFile

/-! # What an export leaves alone

An export has one file to itself, the one that the path of its table leads to. In front of it,
directories are made where the path passes; every other file keeps its bytes, and nothing is
removed. An export that fails has not touched a file at all. -/
namespace DiveTable

namespace Tree

/-- A place on the way of a path, where some first steps of it lead, or at its end. -/
def Passes (tree : Tree) (path : String) (place : Place) : Prop :=
  ∃ steps, steps <+: (tree.route path).2 ∧ place = steps.foldl Step.apply (tree.route path).1

theorem passes_destination (tree : Tree) (path : String) :
    tree.Passes path (tree.destination path) :=
  ⟨(tree.route path).2, List.prefix_refl _, rfl⟩

theorem passes_of_parent {tree : Tree} {path parent : String} {place : Place}
    (above : Path.parent? path = some parent) (named : parent ≠ "")
    (h : tree.Passes parent place) : tree.Passes path place := by
  obtain ⟨front, back, segments, ne, inside⟩ := Path.segments_parent above named
  have route : tree.route path = ((tree.routeOf front).1,
      (tree.routeOf front).2 ++ back.map Step.ofSegment) := by
    rw [route_eq_routeOf, segments, routeOf_append tree (.inl ne)]
  obtain ⟨steps, first, rfl⟩ := h
  rcases inside with same | ⟨root, rfl⟩
  · rw [route_eq_routeOf, same] at first ⊢
    exact ⟨steps, by rw [route]; exact first.trans (List.prefix_append _ _), by rw [route]⟩
  · -- The root is where such a path starts; the step in its own path leads nowhere else.
    refine ⟨[], List.nil_prefix, ?_⟩
    have start : (tree.route path).1 = [] := by rw [route, root]; rfl
    have single : (tree.route "/").2 = [.stay] := rfl
    have idle : ∀ step ∈ steps, step = .stay := fun step mem =>
      List.mem_singleton.1 (single ▸ first.subset mem)
    have still : steps.foldl Step.apply (tree.route "/").1 = [] := by
      rw [List.eq_replicate_iff.2 ⟨rfl, idle⟩]
      induction steps.length with
      | zero => rfl
      | succ n ih => exact ih
    rw [start]
    exact still

theorem passes_of_ancestor {tree : Tree} {path above : String} (h : above ∈ Path.ancestors path) :
    tree.Passes path (tree.destination above) := by
  rw [Path.ancestors] at h
  generalize path.length = fuel at h
  induction fuel generalizing path with
  | zero => cases h
  | succ fuel ih =>
    rw [Path.ancestors.go] at h
    split at h
    · cases h
    · rcases List.mem_cons.1 h with rfl | h
      · exact passes_destination tree above
      · cases hparent : Path.parent? path with
        | none => simp [hparent] at h
        | some parent =>
          rw [hparent] at h
          have named : parent ≠ "" := by
            rintro rfl
            cases fuel <;> simp [Path.ancestors.go] at h
          exact passes_of_parent hparent named (ih h)

/-- Directories that are made leave the files as they are, and make none. -/
theorem Makes.file_iff {paths : List String} {before after : Tree} (h : Makes paths before after)
    (place : Place) (bytes : List UInt8) :
    after.node? place = some (.file bytes) ↔ before.node? place = some (.file bytes) := by
  constructor
  · intro there
    cases hnode : before.node? place with
    | none =>
      obtain ⟨directory, -⟩ := h.made place _ hnode there
      cases directory
    | some node => rw [← there, h.node place node hnode]
  · exact h.node place _

theorem Makes.passed {path : String} {before after : Tree}
    (h : Makes (directoriesOf path) before after) {place : Place}
    (new : before.node? place ≠ some .directory) (there : after.node? place = some .directory) :
    ∃ parent, Path.parent? path = some parent ∧ before.Passes parent place := by
  cases hnode : before.node? place with
  | some node =>
    rw [hnode, ← there, h.node place node hnode] at new
    exact absurd rfl new
  | none =>
    obtain ⟨-, above, mem, rfl⟩ := h.made place _ hnode there
    cases hparent : Path.parent? path with
    | none => simp [directoriesOf, hparent] at mem
    | some parent =>
      rw [directoriesOf, hparent] at mem
      exact ⟨parent, rfl, passes_of_ancestor mem⟩

/-- All that a tree keeps while the file of one path is written. -/
structure Spares (path : String) (before after : Tree) : Prop where
  current : after.current = before.current
  /-- Elsewhere no file is changed, and none is made. -/
  file_iff : ∀ place, place ≠ before.destination path → ∀ bytes,
    after.node? place = some (.file bytes) ↔ before.node? place = some (.file bytes)
  /-- Nothing is removed; at most, a file holds other bytes. -/
  kept : ∀ place node, before.node? place = some node → after.node? place = some node ∨
    ∃ bytes later, node = .file bytes ∧ after.node? place = some (.file later)
  /-- Directories are made nowhere but on the way. -/
  made : ∀ place, before.node? place ≠ some .directory → after.node? place = some .directory →
    ∃ parent, Path.parent? path = some parent ∧ before.Passes parent place

theorem Makes.spares {path : String} {before after : Tree}
    (h : Makes (directoriesOf path) before after) : Spares path before after where
  current := h.current
  file_iff place _ := h.file_iff place
  kept place node there := .inl (h.node place node there)
  made _ := h.passed

theorem Opens.destination {tree made : Tree} {path input : String} {place : Place}
    (h : Opens tree path input made place) : place = tree.destination path :=
  (destination_of_findTarget h.target).trans (destination_of_current h.makes.current path)

theorem Opens.spares {tree made : Tree} {path input : String} {place : Place}
    (h : Opens tree path input made place) (bytes : List UInt8) :
    Spares path tree (made.put place (.file bytes)) where
  current := h.makes.current
  file_iff other elsewhere content := by
    rw [← h.destination] at elsewhere
    rw [node_put_of_ne made elsewhere, h.makes.file_iff]
  kept other node there := by
    have still := h.makes.node other node there
    by_cases same : other = place
    · subst same
      right
      cases node with
      | file old => exact ⟨old, bytes, rfl, (find_eq_ok.1 (h.find_put bytes)).2.2⟩
      | directory => exact absurd still h.notDirectory
      | fullDevice => exact absurd still h.notDevice
    · exact .inl ((node_put_of_ne made same _).trans still)
  made other new there := by
    have elsewhere : other ≠ place := by
      rintro rfl
      rw [(find_eq_ok.1 (h.find_put bytes)).2.2] at there
      cases there
    rw [node_put_of_ne made elsewhere] at there
    exact h.makes.passed new there

/-- The ways in which an export fails before there is a file for its table. -/
inductive StopsEarly (tree : Tree) (path input : String) : Prop where
  | isInput (same : tree.sameFile path input = true)
  | noDirectory (failure : Failure) (made : Tree)
      (prepared : prepareParent storage path tree = (some failure, made))
  | notOpened (made : Tree) (fault : OsFault)
      (prepared : prepareParent storage path tree = (none, made))
      (created : made.create path = .error fault)

theorem Opens.not_stopsEarly {tree made : Tree} {path input : String} {place : Place}
    (h : Opens tree path input made place) : ¬StopsEarly tree path input := by
  rintro (same | ⟨failure, other, prepared⟩ | ⟨other, fault, prepared, created⟩)
  · rw [h.notSame] at same
    cases same
  · rw [h.prepared] at prepared
    cases prepared
  · rw [h.prepared] at prepared
    obtain ⟨-, rfl⟩ := Prod.mk.inj prepared
    rw [h.create_eq] at created
    cases created

/-- A table that was written is found under its path, whatever the file held before. -/
theorem Opens.read_put {tree made : Tree} {path input : String} {place : Place}
    (h : Opens tree path input made place) (bytes : List UInt8) :
    (made.put place (.file bytes)).read path = .ok bytes := by
  rw [read, h.find_put]

/-- An export that succeeds reports what it has counted, and its table is found under its path. -/
theorem exported_of_ok {tree : Tree} {items : List (Except Fault Event)} {input : String}
    {outputDir : Option String} {debug : Bool} {report : Report}
    (h : (exportTo storage items input outputDir debug tree).1.outcome = .ok report) :
    report = ⟨Path.exportPath input outputDir, .ofItems items⟩ ∧
      (exportTo storage items input outputDir debug tree).2.read (Path.exportPath input outputDir) =
        .ok (Utf8.encode (tableText (Accumulator.rows (Items.events items))).toList) := by
  rcases fails_or_opens tree items input outputDir debug with
    ⟨⟨failure, failed⟩, -⟩ | ⟨made, place, opens⟩
  · cases failed.symm.trans h
  · obtain ⟨after, written⟩ := exportTo_of_opens opens items debug
    rw [after, opens.read_put]
    exact ⟨Except.ok.inj (h.symm.trans written), rfl⟩

/-- An export changes the file that the path of its table leads to and no other, removes nothing,
and makes directories only on the way. It succeeds just if it opens a file. One that fails, as it
does if it stops early, has not touched a file; one that succeeds leaves the table and nothing else
in its file. -/
theorem export_touches_one_file (tree : Tree) (items : List (Except Fault Event)) (input : String)
    (outputDir : Option String) (debug : Bool) :
    let path := Path.exportPath input outputDir
    let result := exportTo storage items input outputDir debug tree
    Spares path tree result.2 ∧
      ((∃ report, result.1.outcome = .ok report) ↔
        ∃ made place, Opens tree path input made place) ∧
      (StopsEarly tree path input → ∃ failure, result.1.outcome = .error failure) ∧
      (∀ failure, result.1.outcome = .error failure → ∀ place bytes,
        result.2.node? place = some (.file bytes) ↔ tree.node? place = some (.file bytes)) ∧
      ∀ report, result.1.outcome = .ok report → report.path = path ∧
        ∃ text, (convert debug items .empty).outcome = .ok (report.summary, .memory text) ∧
          result.2.read path = .ok (Utf8.encode text.toList) := by
  intro path result
  have table := convert_memory debug items ""
  rw [String.empty_append] at table
  have reported (report : Report) (h : result.1.outcome = .ok report) : report.path = path ∧
      ∃ text, (convert debug items .empty).outcome = .ok (report.summary, .memory text) ∧
        result.2.read path = .ok (Utf8.encode text.toList) := by
    obtain ⟨rfl, left⟩ := exported_of_ok h
    exact ⟨rfl, _, table, left⟩
  rcases fails_or_opens tree items input outputDir debug with
    ⟨⟨failure, failed⟩, makes⟩ | ⟨made, place, opens⟩
  · refine ⟨makes.spares, ⟨?_, ?_⟩, fun _ => ⟨failure, failed⟩, fun _ _ => makes.file_iff, reported⟩
    · rintro ⟨report, ok⟩
      cases failed.symm.trans ok
    · rintro ⟨made, place, opens⟩
      cases failed.symm.trans (exportTo_of_opens opens items debug).2
  · obtain ⟨after, written⟩ := exportTo_of_opens opens items debug
    have spares : Spares path tree result.2 := by
      show Spares path tree (exportTo storage items input outputDir debug tree).2
      rw [after]
      exact opens.spares _
    refine ⟨spares, ⟨fun _ => ⟨made, place, opens⟩, fun _ => ⟨_, written⟩⟩,
      fun stops => absurd stops opens.not_stopsEarly, ?_, reported⟩
    intro failure failed
    cases written.symm.trans failed

def oldTable : Tree :=
  { entries := [(["dives"], .directory), (["dives", "a.dsf"], .file [0x7B, 0x7D]),
      (["dives", "a.csv"], .file (List.replicate 9000 0x20)), (["dives", "b.csv"], .file [0x31])]
    current := ["dives"] }

theorem export_touches_one_file_oldTable :
    (∃ report text, (exportTo storage [] "a.dsf" none false oldTable).1.outcome = .ok report ∧
      (convert false [] .empty).outcome = .ok (report.summary, .memory text) ∧
      (exportTo storage [] "a.dsf" none false oldTable).2.read "a.csv" =
        .ok (Utf8.encode text.toList)) ∧
      (exportTo storage [] "a.dsf" none false oldTable).2.node? ["dives", "b.csv"] =
        some (.file [0x31]) ∧
      ∃ failure,
        (exportTo storage [] "a.dsf" (some "b.csv") false oldTable).1.outcome = .error failure := by
  obtain ⟨spares, succeeds, -, -, reported⟩ :=
    export_touches_one_file oldTable [] "a.dsf" none false
  obtain ⟨-, -, stops, -⟩ := export_touches_one_file oldTable [] "a.dsf" (some "b.csv") false
  have opens : Opens oldTable (Path.exportPath "a.dsf" none) "a.dsf" oldTable ["dives", "a.csv"] :=
    ⟨by decide +kernel, by rfl, by rfl, by decide +kernel, by decide +kernel⟩
  obtain ⟨report, written⟩ := succeeds.2 ⟨_, _, opens⟩
  obtain ⟨-, text, table, left⟩ := reported report written
  have elsewhere : ["dives", "b.csv"] ≠ oldTable.destination (Path.exportPath "a.dsf" none) := by
    decide +kernel
  refine ⟨⟨report, text, written, table, left⟩, (spares.file_iff _ elsewhere _).2 (by rfl), ?_⟩
  exact stops (.notOpened oldTable .notDirectory (by rfl) (by rfl))

end Tree

end DiveTable
