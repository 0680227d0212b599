import DiveTable.Proofs.Streaming
import DiveTable.Proofs.TreeGrowth

/-! # The steps of an export on a tree

An export compares two paths, makes directories, opens a file and writes to it, each on the tree
that the step before it has left. Either it fails and has made directories at most, or it opens a
file and leaves the table there: `fails_or_opens`. -/
namespace DiveTable

namespace Tree

theorem bind_apply {α β : Type} (action : StateM Tree α) (next : α → StateM Tree β)
    (tree : Tree) : (action >>= next) tree = next (action tree).1 (action tree).2 := rfl

theorem change_of_ok (step : Tree → Except OsFault Tree) {tree changed : Tree}
    (h : step tree = .ok changed) : change step tree = (.ok (), changed) := by
  unfold change
  rw [h]

theorem change_of_error (step : Tree → Except OsFault Tree) {tree : Tree} {fault : OsFault}
    (h : step tree = .error fault) : change step tree = (.error fault, tree) := by
  unfold change
  rw [h]

def sameFile (tree : Tree) (a b : String) : Bool :=
  match tree.canonical a, tree.canonical b with
  | some a, some b => a = b
  | _, _ => false

theorem isSameFile_storage (tree : Tree) (a b : String) :
    storage.isSameFile a b tree = (tree.sameFile a b, tree) := by
  show (match tree.canonical a, tree.canonical b with
    | some a, some b => (pure (decide (a = b)) : StateM Tree Bool)
    | _, _ => pure false) tree = _
  unfold sameFile
  cases tree.canonical a <;> cases tree.canonical b <;> rfl

theorem prepareParent_of_present {tree : Tree} {path : String}
    (h : ∀ parent, Path.parent? path = some parent → parent ≠ "" → tree.isPresent parent = true) :
    prepareParent storage path tree = (none, tree) := by
  unfold prepareParent
  cases hparent : Path.parent? path with
  | none => rfl
  | some parent =>
    dsimp only
    split
    · rfl
    · rename_i named
      have present : storage.isPresent parent tree = (true, tree) :=
        Prod.ext (h parent hparent named) rfl
      rw [bind_apply, present]
      rfl

/-- The steps of an export, each on the tree that the one before it has left. -/
theorem exportTo_storage (tree : Tree) (items : List (Except Fault Event)) (input : String)
    (outputDir : Option String) (debug : Bool) :
    exportTo storage items input outputDir debug tree =
      let path := Path.exportPath input outputDir
      let notOpened := "Could not open output file " ++ quoted path
      if tree.sameFile path input then
        (.fail ⟨[notOpened ++ ": it is the input file"]⟩, tree)
      else match prepareParent storage path tree with
        | (some failure, made) => (.fail failure, made)
        | (none, made) =>
          match made.create path with
          | .error fault => (.fail (.ofOsFault notOpened fault), made)
          | .ok opened => writeTable storage path items debug opened := by
  unfold exportTo
  rw [bind_apply, isSameFile_storage]
  dsimp only
  cases tree.sameFile (Path.exportPath input outputDir) input with
  | true => rfl
  | false =>
    simp only [Bool.false_eq_true, if_false]
    rw [bind_apply]
    rcases prepareParent storage (Path.exportPath input outputDir) tree with ⟨failure?, made⟩
    cases failure? with
    | some failure => rfl
    | none =>
      dsimp only
      rw [bind_apply]
      cases created : made.create (Path.exportPath input outputDir) with
      | error fault =>
        have failed : storage.create (Path.exportPath input outputDir) made =
          (.error fault, made) := change_of_error (·.create _) created
        rw [failed]
        rfl
      | ok opened =>
        have done : storage.create (Path.exportPath input outputDir) made = (.ok (), opened) :=
          change_of_ok (·.create _) created
        rw [done]

def reported (path : String) (table : Trace Fault (Summary × Sink)) : Trace Failure Report := do
  let (summary, _) ← table.mapError (.ofFault ("Failed to write CSV file: " ++ quoted path))
  return ⟨path, summary⟩

/-- A table is written to its file at once; if that refuses it, the conversion ends as it does in
front of a sink that refuses. -/
theorem writeTable_storage (tree : Tree) (path : String) (items : List (Except Fault Event))
    (debug : Bool) :
    writeTable storage path items debug tree =
      match tree.write path (tableText (Accumulator.rows (Items.events items))) with
      | .ok written => (reported path (convert debug items .empty), written)
      | .error fault => (reported path (convert debug items (.refusing fault.text)), tree) := by
  have table : (convert debug items .empty).outcome = _ := convert_memory debug items ""
  rw [String.empty_append] at table
  unfold writeTable
  dsimp only
  rw [table]
  dsimp only [Sink.text]
  rw [bind_apply]
  cases result : tree.write path (tableText (Accumulator.rows (Items.events items))) with
  | ok written =>
    have done : storage.write path (tableText (Accumulator.rows (Items.events items))) tree =
      (.ok (), written) := change_of_ok (·.write _ _) result
    rw [done]
    rfl
  | error fault =>
    have failed : storage.write path (tableText (Accumulator.rows (Items.events items))) tree =
      (.error fault, tree) := change_of_error (·.write _ _) result
    rw [failed]
    rfl

theorem outcome_reported (path : String) {table : Trace Fault (Summary × Sink)}
    {outcome : Except Fault (Summary × Sink)} (h : table.outcome = outcome) :
    (reported path table).outcome = (outcome.mapError
      (Failure.ofFault ("Failed to write CSV file: " ++ quoted path))).map fun result =>
        ⟨path, result.1⟩ := by
  rw [reported, Trace.outcome_bind, Trace.outcome_mapError, h]
  cases outcome <;> rfl

/-- A table that its file takes is reported as written. -/
theorem writeTable_of_written {tree written : Tree} {path : String}
    {items : List (Except Fault Event)}
    (h : tree.write path (tableText (Accumulator.rows (Items.events items))) = .ok written)
    (debug : Bool) :
    (writeTable storage path items debug tree).2 = written ∧
      (writeTable storage path items debug tree).1.outcome = .ok ⟨path, .ofItems items⟩ := by
  rw [writeTable_storage, h]
  exact ⟨rfl, outcome_reported path (convert_memory debug items "")⟩

/-- A table that is refused leaves nothing, and the refusal is what comes of it. -/
theorem writeTable_of_refused {tree : Tree} {path : String} {fault : OsFault}
    (items : List (Except Fault Event))
    (h : tree.write path (tableText (Accumulator.rows (Items.events items))) = .error fault)
    (debug : Bool) :
    (writeTable storage path items debug tree).2 = tree ∧
      (writeTable storage path items debug tree).1.outcome =
        .error (.ofFault ("Failed to write CSV file: " ++ quoted path)
          (refusal fault.text (tableText (Accumulator.rows (Items.events items))))) := by
  rw [writeTable_storage, h]
  exact ⟨rfl, outcome_reported path
    (convert_of_refuses (Sink.refuses_refusing fault.text) debug items)⟩

def canonicalText (place : Place) : Node → String
  | .fullDevice => fullDevicePath
  | _ => placeText place

theorem canonical_of_find {tree : Tree} {path : String} {place : Place} {node : Node}
    (nameable : tree.isNameable path = true) (h : tree.find path = .ok (place, node)) :
    tree.canonical path = some (canonicalText place node) := by
  have sound := (find_eq_ok.1 h).1
  rw [find, sound] at h
  dsimp only at h
  rw [canonical, sound]
  dsimp only
  rw [if_pos nameable, h]
  cases node <;> rfl

theorem sameFile_of_find {tree : Tree} {a b : String} {place : Place} {node : Node}
    (namea : tree.isNameable a = true) (nameb : tree.isNameable b = true)
    (ha : tree.find a = .ok (place, node)) (hb : tree.find b = .ok (place, node)) :
    tree.sameFile a b = true := by
  simp [sameFile, canonical_of_find namea ha, canonical_of_find nameb hb]

theorem canonical_eq_some {tree : Tree} {path text : String} (h : tree.canonical path = some text) :
    tree.isNameable path = true ∧ ∃ found, tree.resolve path = .ok found := by
  unfold canonical at h
  split at h
  · cases h
  · cases h
  · split at h
    · rename_i nameable
      cases resolved : tree.resolve path with
      | error fault => simp [resolved] at h
      | ok found => exact ⟨nameable, found, rfl⟩
    · cases h

/-- Two paths that are known to lead to one thing have both been named by their absolute paths. -/
theorem canonical_of_sameFile {tree : Tree} {a b : String} (h : tree.sameFile a b = true) :
    ∃ text text', tree.canonical a = some text ∧ tree.canonical b = some text' := by
  unfold sameFile at h
  cases ha : tree.canonical a with
  | none => simp [ha] at h
  | some text =>
    cases hb : tree.canonical b with
    | none => simp [ha, hb] at h
    | some text' => exact ⟨text, text', rfl, rfl⟩

theorem put_put (tree : Tree) (place : Place) (first second : Node) :
    (tree.put place first).put place second = tree.put place second := by
  simp [put]

theorem directory_put {tree : Tree} {place : Place} (h : tree.node? place ≠ some .directory)
    (node : Node) {other : Place} (there : tree.node? other = some .directory) :
    (tree.put place node).node? other = some .directory := by
  have ne : other ≠ place := by
    rintro rfl
    exact h there
  rw [node_put_of_ne tree ne node, there]

/-- What an export opens to write its table: a place that is free or holds a file, once the
missing directories are made. -/
structure Opens (tree : Tree) (path input : String) (made : Tree) (place : Place) : Prop where
  notSame : tree.sameFile path input = false
  prepared : prepareParent storage path tree = (none, made)
  target : made.findTarget path = .ok (some place)
  notDirectory : made.node? place ≠ some .directory
  notDevice : made.node? place ≠ some .fullDevice

theorem Opens.makes {tree made : Tree} {path input : String} {place : Place}
    (h : Opens tree path input made place) : Makes (directoriesOf path) tree made := by
  have makes := making_prepareParent path tree
  rw [h.prepared] at makes
  exact makes

theorem Opens.create_eq {tree made : Tree} {path input : String} {place : Place}
    (h : Opens tree path input made place) :
    made.create path = .ok (made.put place (.file [])) := by
  have notDirectory := h.notDirectory
  have notDevice := h.notDevice
  rw [create, h.target]
  dsimp only
  split <;> simp_all

theorem Opens.find_put {tree made : Tree} {path input : String} {place : Place}
    (h : Opens tree path input made place) (bytes : List UInt8) :
    (made.put place (.file bytes)).find path = .ok (place, .file bytes) := by
  obtain ⟨sound, walks, nonroot⟩ := findTarget_eq_some h.target
  exact find_eq_ok.2 ⟨sound,
    walk_of_directories (fun _ => directory_put h.notDirectory (.file bytes)) walks,
    node_put_self made nonroot (.file bytes)⟩

theorem exportTo_of_opens {tree made : Tree} {input : String} {outputDir : Option String}
    {place : Place} (h : Opens tree (Path.exportPath input outputDir) input made place)
    (items : List (Except Fault Event)) (debug : Bool) :
    (exportTo storage items input outputDir debug tree).2 = made.put place
        (.file (Utf8.encode (tableText (Accumulator.rows (Items.events items))).toList)) ∧
      (exportTo storage items input outputDir debug tree).1.outcome =
        .ok ⟨Path.exportPath input outputDir, .ofItems items⟩ := by
  have written : (made.put place (.file [])).write (Path.exportPath input outputDir)
      (tableText (Accumulator.rows (Items.events items))) = .ok (made.put place
        (.file (Utf8.encode (tableText (Accumulator.rows (Items.events items))).toList))) := by
    rw [write, h.find_put]
    dsimp only
    rw [put_put]
  rw [exportTo_storage]
  simp only [h.notSame, h.prepared, h.create_eq, Bool.false_eq_true, if_false]
  exact writeTable_of_written written debug

/-- An export that fails has made directories and nothing else; any other opens a file. -/
theorem fails_or_opens (tree : Tree) (items : List (Except Fault Event)) (input : String)
    (outputDir : Option String) (debug : Bool) :
    ((∃ failure, (exportTo storage items input outputDir debug tree).1.outcome = .error failure) ∧
      Makes (directoriesOf (Path.exportPath input outputDir)) tree
        (exportTo storage items input outputDir debug tree).2) ∨
    ∃ made place, Opens tree (Path.exportPath input outputDir) input made place := by
  have makes := making_prepareParent (Path.exportPath input outputDir) tree
  rw [exportTo_storage]
  dsimp only
  cases hsame : tree.sameFile (Path.exportPath input outputDir) input with
  | true => exact .inl ⟨⟨_, rfl⟩, Makes.refl _ tree⟩
  | false =>
    rw [if_neg (by simp)]
    rcases hprep : prepareParent storage (Path.exportPath input outputDir) tree with
      ⟨failure?, made⟩
    rw [hprep] at makes
    cases failure? with
    | some failure => exact .inl ⟨⟨failure, rfl⟩, makes⟩
    | none =>
      dsimp only
      cases hcreate : made.create (Path.exportPath input outputDir) with
      | error fault => exact .inl ⟨⟨_, rfl⟩, makes⟩
      | ok opened =>
        obtain ⟨place, target, notDirectory, ⟨device, rfl⟩ | ⟨notDevice, rfl⟩⟩ :=
          create_eq_ok hcreate
        · left
          have refused (text : String) :
              opened.write (Path.exportPath input outputDir) text = .error .noSpace := by
            rw [write, find_of_findTarget target device]
          obtain ⟨left, failure⟩ := writeTable_of_refused items (refused _) debug
          dsimp only
          rw [left]
          exact ⟨⟨_, failure⟩, makes⟩
        · exact .inr ⟨made, place, hsame, hprep, target, notDirectory, notDevice⟩

end Tree

end DiveTable
