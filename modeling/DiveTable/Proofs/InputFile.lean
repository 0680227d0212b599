import DiveTable.Proofs.AbsolutePaths
import DiveTable.Proofs.ExportSteps
import DiveTable.Proofs.PathSegments

/-! # The input of an export

An export opens one file. It is refused while the path of the table is known to lead to the input,
but the paths are compared before the missing directories are made, and by their absolute paths.
Making directories can let a path arrive that led nowhere before, and what stands too far down has
no absolute path. These are the ways in which an input is lost. -/
namespace DiveTable

namespace Tree

/-- What keeps a table from being known for the input: its path leads nowhere yet, or one of the two
has no absolute path that can be asked for. -/
inductive Unseen (tree : Tree) (path input : String) : Prop
  | absent (h : tree.isPresent path = false)
  | farTable (h : tree.isNameable path = false)
  | farInput (h : tree.isNameable input = false)

structure Overruns (tree : Tree) (path input : String) (place : Place) : Prop where
  unseen : Unseen tree path input
  arrives : ∃ made, prepareParent storage path tree = (none, made) ∧
    made.findTarget path = .ok (some place)

theorem Unseen.absent_of_nameable {tree : Tree} {path input : String}
    (h : Unseen tree path input) (table : tree.isNameable path = true)
    (named : tree.isNameable input = true) : tree.isPresent path = false := by
  rcases h with absent | far | far
  · exact absent
  · rw [table] at far
    cases far
  · rw [named] at far
    cases far

def Rooted (tree : Tree) : Prop :=
  ∀ place node, tree.node? place = some node → tree.node? place.dropLast = some .directory

theorem isPresent_of_find {tree : Tree} {path : String} {place : Place} {node : Node}
    (h : tree.find path = .ok (place, node)) : tree.isPresent path = true := by
  rw [isPresent, h]
  rfl

/-- With its directory at hand, a table overruns what its path leads to if that cannot be named. -/
theorem overruns_iff_of_present {tree : Tree} {path input : String} {place : Place} {node : Node}
    (there : tree.node? place = some node)
    (h : ∀ parent, Path.parent? path = some parent → parent ≠ "" → tree.isPresent parent = true) :
    Overruns tree path input place ↔ tree.findTarget path = .ok (some place) ∧
      (tree.isNameable path = false ∨ tree.isNameable input = false) := by
  have prepared := prepareParent_of_present h
  constructor
  · rintro ⟨unseen, made, other, target⟩
    rw [prepared] at other
    obtain rfl := (Prod.mk.inj other).2
    refine ⟨target, ?_⟩
    rcases unseen with absent | far | far
    · rw [isPresent_of_find (find_of_findTarget target there)] at absent
      cases absent
    · exact .inl far
    · exact .inr far
  · rintro ⟨target, far⟩
    exact ⟨far.elim .farTable .farInput, tree, prepared, target⟩

theorem Rooted.directory_above {tree : Tree} (rooted : Rooted tree) {place : Place}
    {below : List String} {node : Node} (there : tree.node? (place ++ below) = some node)
    (ne : below ≠ []) : tree.node? place = some .directory := by
  induction below generalizing place with
  | nil => exact absurd rfl ne
  | cons name below ih =>
    have next : tree.node? (place ++ [name] ++ below) = some node := by simpa using there
    have above : ∃ node, tree.node? (place ++ [name]) = some node := by
      by_cases hb : below = []
      · exact ⟨node, by simpa [hb] using next⟩
      · exact ⟨.directory, ih next hb⟩
    obtain ⟨inside, hinside⟩ := above
    simpa using rooted _ _ hinside

/-- Stepping down towards something that exists, a path only meets directories that exist. -/
theorem walk_of_no_up {tree made : Tree} (rooted : Rooted tree) (grows : Grows tree made)
    {place goal : Place} {bytes : List UInt8} (there : tree.node? goal = some (.file bytes))
    {steps : List Step} (down : Step.up ∉ steps) (walks : made.walk place steps = .ok goal) :
    tree.walk place steps = .ok goal := by
  induction steps generalizing place with
  | nil => exact walks
  | cons step steps ih =>
    obtain ⟨below, hbelow⟩ := exists_below_of_no_up down (eq_foldl_of_walk walks)
    obtain ⟨directory, short, rest⟩ := walk_cons_ok.1 walks
    have proper : below ≠ [] := by
      rintro rfl
      rw [List.append_nil] at hbelow
      rw [← hbelow, grows.node goal _ there] at directory
      cases directory
    exact walk_cons_ok.2 ⟨rooted.directory_above (hbelow ▸ there) proper, short,
      ih (fun mem => down (List.mem_cons_of_mem _ mem)) rest⟩

theorem not_overruns_of_no_up {tree : Tree} (rooted : Rooted tree) {path input : String}
    {place : Place} {bytes : List UInt8} (there : tree.node? place = some (.file bytes))
    (down : Step.up ∉ (tree.route path).2) (table : tree.isNameable path = true)
    (named : tree.isNameable input = true) : ¬Overruns tree path input place := by
  rintro ⟨unseen, made, prepared, target⟩
  have absent := unseen.absent_of_nameable table named
  have grows := growing_prepareParent path tree
  rw [prepared] at grows
  obtain ⟨sound, walks, -⟩ := findTarget_eq_some target
  rw [route_of_current grows.current] at walks
  have found : tree.find path = .ok (place, .file bytes) :=
    find_eq_ok.2 ⟨sound, walk_of_no_up rooted grows there down walks, there⟩
  rw [isPresent_of_find found] at absent
  cases absent

def routeOf (tree : Tree) : List Path.Segment → Place × List Step
  | [] :: rest => ([], rest.map Step.ofSegment)
  | segments => (tree.current, segments.map Step.ofSegment)

theorem route_eq_routeOf (tree : Tree) (path : String) :
    tree.route path = tree.routeOf (Path.segments path) := rfl

theorem routeOf_append (tree : Tree) {front back : List Path.Segment}
    (h : front ≠ [] ∨ back.head? ≠ some []) :
    tree.routeOf (front ++ back) =
      ((tree.routeOf front).1, (tree.routeOf front).2 ++ back.map Step.ofSegment) := by
  cases front with
  | nil =>
    cases back with
    | nil => rfl
    | cons first back =>
      cases first with
      | nil => simp at h
      | cons c first => rfl
  | cons first front =>
    cases first with
    | nil => simp [routeOf]
    | cons c first => simp [routeOf]

theorem ofSegment_eq_stay {segment : Path.Segment} (h : segment = [] ∨ segment = Path.here) :
    Step.ofSegment segment = .stay := if_pos h

theorem ofSegment_up : Step.ofSegment Path.up = .up := rfl

/-- In a tree where all stands in directories, only a name leads to a file. -/
theorem named_of_file {tree : Tree} (rooted : Rooted tree) {start place : Place}
    {steps : List Step} {last : Path.Segment} {bytes : List UInt8}
    (there : tree.node? place = some (.file bytes))
    (walks : tree.walk start (steps ++ [Step.ofSegment last]) = .ok place) :
    ¬(last = [] ∨ last = Path.here) ∧ last ≠ Path.up := by
  obtain ⟨middle, -, walks⟩ := walk_append_ok.1 walks
  obtain ⟨directory, -, arrives⟩ := walk_cons_ok.1 walks
  obtain rfl := Except.ok.inj arrives
  constructor
  · intro idle
    rw [ofSegment_eq_stay idle, show Step.stay.apply middle = middle from rfl, directory] at there
    cases there
  · rintro rfl
    rw [ofSegment_up, show Step.up.apply middle = middle.dropLast from rfl,
      rooted _ _ directory] at there
    cases there

theorem directory_of_walk {tree : Tree} {place arrived : Place} {steps : List Step}
    (ne : steps ≠ []) (walks : tree.walk place steps = .ok arrived) :
    tree.node? place = some .directory := by
  cases steps with
  | nil => exact absurd rfl ne
  | cons step steps => exact (walk_cons_ok.1 walks).1

theorem tableName_ne_nil (name : Path.Segment) : Path.tableName name ≠ [] := by
  unfold Path.tableName
  split
  · simp
  · simp
  · split
    · decide
    · simp

/-- Segments that are idle at the end do not matter for where a path starts. -/
theorem routeOf_dropIdle (tree : Tree) (front : List Path.Segment) :
    ∃ idle, tree.routeOf front = ((tree.routeOf (Path.dropIdle front.reverse).reverse).1,
      (tree.routeOf (Path.dropIdle front.reverse).reverse).2 ++ idle) := by
  obtain ⟨idle, -, hfront⟩ := Path.exists_idle front.reverse
  refine ⟨idle.reverse.map Step.ofSegment, ?_⟩
  have cut : front = (Path.dropIdle front.reverse).reverse ++ idle.reverse := by
    rw [← List.reverse_append, ← hfront, List.reverse_reverse]
  by_cases none : front = []
  · subst none
    obtain ⟨rfl, -⟩ := List.append_eq_nil_iff.1 hfront.symm
    rfl
  · have some : (Path.dropIdle front.reverse).reverse ≠ [] := by
      simpa using Path.dropIdle_ne_nil (by simpa using none)
    rw [← routeOf_append tree (.inl some), ← cut]

/-- A path that leads to a file ends with the name of the file. -/
theorem exists_last_of_file {tree : Tree} (rooted : Rooted tree) {path : String} {place : Place}
    {bytes : List UInt8} (found : tree.find path = .ok (place, .file bytes)) :
    ∃ front last, Path.segments path = front ++ [last] ∧
      tree.route path =
        ((tree.routeOf front).1, (tree.routeOf front).2 ++ [Step.ofSegment last]) ∧
      ¬(last = [] ∨ last = Path.here) ∧ last ≠ Path.up := by
  obtain ⟨-, walks, there⟩ := find_eq_ok.1 found
  obtain ⟨front, last, segments⟩ : ∃ front last, Path.segments path = front ++ [last] :=
    ⟨_, _, (List.dropLast_concat_getLast (Path.segments_ne_nil path)).symm⟩
  rw [route_eq_routeOf, segments] at walks
  have something : front ≠ [] ∨ [last].head? ≠ some [] := by
    by_cases none : front = [] ∧ last = []
    · obtain ⟨rfl, rfl⟩ := none
      obtain rfl := Except.ok.inj walks
      rw [show (tree.routeOf ([] ++ [[]])).1 = [] from rfl, node_root] at there
      cases there
    · by_cases hfront : front = []
      · exact .inr (by simpa [hfront] using none)
      · exact .inl hfront
  rw [routeOf_append tree something] at walks
  refine ⟨front, last, segments, ?_, named_of_file rooted there walks⟩
  rw [route_eq_routeOf, segments, routeOf_append tree something]
  rfl

/-- The table that goes next to its input shares the directories on the way; only the last step
is another. -/
theorem route_next_to_input {tree : Tree} (rooted : Rooted tree) {input : String}
    {place : Place} {bytes : List UInt8} (found : tree.find input = .ok (place, .file bytes)) :
    ∃ start steps idle name tableName, tree.route input = (start, steps ++ (idle ++ [name])) ∧
      tree.route (Path.exportPath input none) = (start, steps ++ [tableName]) := by
  obtain ⟨front, last, segments, route, named, notUp⟩ := exists_last_of_file rooted found
  obtain ⟨idle, hidle⟩ := routeOf_dropIdle tree front
  refine ⟨(tree.routeOf (Path.dropIdle front.reverse).reverse).1,
    (tree.routeOf (Path.dropIdle front.reverse).reverse).2, idle, Step.ofSegment last,
    Step.ofSegment (Path.tableName last), ?_, ?_⟩
  · rw [route, hidle, List.append_assoc]
  · rw [route_eq_routeOf, Path.segments_exportPath_none segments named notUp,
      routeOf_append tree (.inr (by simpa using tableName_ne_nil last))]
    rfl

theorem not_overruns_next_to_input {tree : Tree} (rooted : Rooted tree) {input : String}
    {place : Place} {bytes : List UInt8} (found : tree.find input = .ok (place, .file bytes))
    (table : tree.isNameable (Path.exportPath input none) = true)
    (named : tree.isNameable input = true) :
    ¬Overruns tree (Path.exportPath input none) input place := by
  rintro ⟨unseen, made, prepared, target⟩
  have absent := unseen.absent_of_nameable table named
  have grows := growing_prepareParent (Path.exportPath input none) tree
  rw [prepared] at grows
  obtain ⟨start, steps, idle, name, tableName, hinput, hpath⟩ := route_next_to_input rooted found
  obtain ⟨-, walks, there⟩ := find_eq_ok.1 found
  obtain ⟨sound, arrives, -⟩ := findTarget_eq_some target
  rw [hinput] at walks
  rw [route_of_current grows.current, hpath] at arrives
  obtain ⟨middle, inside, rest⟩ := walk_append_ok.1 walks
  obtain ⟨middle', inside', step⟩ := walk_append_ok.1 arrives
  obtain rfl : middle' = middle := (eq_foldl_of_walk inside').trans (eq_foldl_of_walk inside).symm
  obtain ⟨-, short, lands⟩ := walk_cons_ok.1 step
  have last : tree.walk middle' [tableName] = .ok place :=
    walk_cons_ok.2 ⟨directory_of_walk (by simp) rest, short, lands⟩
  have goes : tree.walk (tree.route (Path.exportPath input none)).1
      (tree.route (Path.exportPath input none)).2 = .ok place := by
    rw [hpath]
    exact walk_append_ok.2 ⟨middle', inside, last⟩
  rw [isPresent_of_find (find_eq_ok.2 ⟨sound, goes, there⟩)] at absent
  cases absent

/-- In a tree where all stands in directories, a way down to a file fits if the path of the file
does. -/
theorem isNameable_iff_of_no_up {tree : Tree} (rooted : Rooted tree) {path : String}
    {place : Place} {bytes : List UInt8} (found : tree.find path = .ok (place, .file bytes))
    (down : Step.up ∉ (tree.route path).2) :
    tree.isNameable path = true ↔ (placeText place).utf8ByteSize ≤ longestPath := by
  obtain ⟨front, last, -, route, named, notUp⟩ := exists_last_of_file rooted found
  have down' : Step.ofSegment last = .down (String.ofList last) := by
    rw [Step.ofSegment, if_neg named, if_neg notUp]
  rw [down'] at route
  have goal := destination_of_find found
  rw [destination, route, List.foldl_append] at goal
  rw [isNameable, route, fitsAbsolute_concat, ← goal]
  · rfl
  · intro mem
    rw [route] at down
    exact down (List.mem_append_left _ mem)

theorem sameFile_of_unseen {tree : Tree} {path input : String} (sound : pathFault? path = none)
    (h : Unseen tree path input) : tree.sameFile path input = false := by
  apply Bool.eq_false_iff.2
  intro same
  obtain ⟨text, text', isTable, isInput⟩ := canonical_of_sameFile same
  obtain ⟨table, found, resolved⟩ := canonical_eq_some isTable
  obtain ⟨named, -⟩ := canonical_eq_some isInput
  have absent := h.absent_of_nameable table named
  rw [isPresent, find, sound] at absent
  dsimp only at absent
  rw [resolved] at absent
  cases absent

theorem find_after_opens {tree made : Tree} {path input : String} {place opened : Place}
    {bytes : List UInt8} (h : Opens tree path input made opened)
    (found : tree.find input = .ok (place, .file bytes)) (content : List UInt8) :
    (made.put opened (.file content)).find input =
      .ok (place, .file (if place = opened then content else bytes)) := by
  obtain ⟨-, -, there⟩ := find_eq_ok.1 found
  have directories (other : Place) (hd : tree.node? other = some .directory) :
      (made.put opened (.file content)).node? other = some .directory :=
    directory_put h.notDirectory _ (h.makes.node other _ hd)
  have current : (made.put opened (.file content)).current = tree.current := h.makes.current
  refine find_of_directories current directories found ?_
  by_cases same : place = opened
  · rw [if_pos same, same, node_put_self made (findTarget_eq_some h.target).2.2]
  · rw [if_neg same, node_put_of_ne made same, h.makes.node place _ there]

/-- What leads somewhere leads to the same place when directories have been made, so the input
would have been recognised if both had been named. -/
theorem unseen_of_opens {tree made : Tree} {path input : String} {place : Place} {node : Node}
    (h : Opens tree path input made place) (found : tree.find input = .ok (place, node)) :
    Unseen tree path input := by
  cases hfind : tree.find path with
  | error fault =>
    apply Unseen.absent
    rw [isPresent, hfind]
    rfl
  | ok present =>
    obtain ⟨arrived, other⟩ := present
    obtain ⟨-, walks, -⟩ := findTarget_eq_some h.target
    have lands := eq_foldl_of_walk walks
    rw [route_of_current h.makes.current] at lands
    obtain rfl : arrived = place := (destination_of_find hfind).symm.trans lands.symm
    obtain rfl : other = node := Option.some.inj
      ((find_eq_ok.1 hfind).2.2.symm.trans (find_eq_ok.1 found).2.2)
    cases table : tree.isNameable path with
    | false => exact .farTable table
    | true =>
      cases named : tree.isNameable input with
      | false => exact .farInput named
      | true =>
        have same := h.notSame
        rw [sameFile_of_find table named hfind found] at same
        cases same

/-- The file that an export overruns holds the table; every other input keeps its bytes. -/
theorem kept_or_overrun (tree : Tree) (items : List (Except Fault Event)) (input : String)
    (outputDir : Option String) (debug : Bool) {place : Place} {bytes : List UInt8}
    (found : tree.find input = .ok (place, .file bytes)) :
    (¬Overruns tree (Path.exportPath input outputDir) input place →
      (exportTo storage items input outputDir debug tree).2.find input =
        .ok (place, .file bytes)) ∧
    (Overruns tree (Path.exportPath input outputDir) input place →
      (∃ report, (exportTo storage items input outputDir debug tree).1.outcome = .ok report) ∧
      (exportTo storage items input outputDir debug tree).2.find input = .ok (place,
        .file (Utf8.encode (tableText (Accumulator.rows (Items.events items))).toList))) := by
  constructor
  · intro notOverruns
    rcases fails_or_opens tree items input outputDir debug with ⟨-, makes⟩ | ⟨made, opened, opens⟩
    · exact makes.find found
    · have elsewhere : place ≠ opened := by
        rintro rfl
        exact notOverruns ⟨unseen_of_opens opens found, made, opens.prepared, opens.target⟩
      rw [(exportTo_of_opens opens items debug).1, find_after_opens opens found, if_neg elsewhere]
  · rintro ⟨unseen, made, prepared, target⟩
    have grows := growing_prepareParent (Path.exportPath input outputDir) tree
    rw [prepared] at grows
    have file : made.node? place = some (.file bytes) :=
      grows.node place _ (find_eq_ok.1 found).2.2
    have opens : Opens tree (Path.exportPath input outputDir) input made place :=
      ⟨sameFile_of_unseen (findTarget_eq_some target).1 unseen, prepared, target, by simp [file],
        by simp [file]⟩
    obtain ⟨after, report⟩ := exportTo_of_opens opens items debug
    rw [after, find_after_opens opens found, if_pos rfl]
    exact ⟨⟨_, report⟩, rfl⟩

/-- An export changes its input just when the path of the table arrives there unseen. Then the input
is lost, and the export is reported as a success. Where the directory of the table exists, that is
so if the absolute path of the table or of the input is too long. Where both can be named, no output
directory, and one whose path never steps up, keep the input. -/
theorem input_kept_unless_overrun (tree : Tree) (items : List (Except Fault Event)) (input : String)
    (outputDir : Option String) (debug : Bool) (place : Place) (bytes : List UInt8)
    (found : tree.find input = .ok (place, .file bytes)) :
    let path := Path.exportPath input outputDir
    (¬Overruns tree path input place →
      (exportTo storage items input outputDir debug tree).2.find input =
          .ok (place, .file bytes) ∧
        (exportTo storage items input outputDir debug tree).2.read input = .ok bytes) ∧
    (Overruns tree path input place →
      (∃ report, (exportTo storage items input outputDir debug tree).1.outcome = .ok report) ∧
      (exportTo storage items input outputDir debug tree).2.find input = .ok (place,
        .file (Utf8.encode (tableText (Accumulator.rows (Items.events items))).toList))) ∧
    ((∀ parent, Path.parent? path = some parent → parent ≠ "" → tree.isPresent parent = true) →
      (Overruns tree path input place ↔ tree.findTarget path = .ok (some place) ∧
        (tree.isNameable path = false ∨ tree.isNameable input = false))) ∧
    (Rooted tree → (outputDir = none ∨ Step.up ∉ (tree.route path).2) →
      tree.isNameable path = true → tree.isNameable input = true →
      ¬Overruns tree path input place) ∧
    (Rooted tree → ∀ way, tree.find way = .ok (place, .file bytes) →
      Step.up ∉ (tree.route way).2 →
      (tree.isNameable way = true ↔ (placeText place).utf8ByteSize ≤ longestPath)) := by
  intro path
  obtain ⟨-, -, there⟩ := find_eq_ok.1 found
  obtain ⟨kept, overrun⟩ := kept_or_overrun tree items input outputDir debug found
  refine ⟨fun h => ⟨kept h, by rw [read, kept h]⟩, overrun, overruns_iff_of_present there, ?_, ?_⟩
  · rintro rooted (rfl | down) table named
    · exact not_overruns_next_to_input rooted found table named
    · exact not_overruns_of_no_up rooted there down table named
  · intro rooted way leads down
    exact isNameable_iff_of_no_up rooted leads down

theorem rooted_of_entries {tree : Tree}
    (h : ∀ entry ∈ tree.entries, tree.node? entry.1.dropLast = some .directory) : Rooted tree := by
  intro place node there
  unfold node? at there
  split at there
  · rename_i root
    rw [root]
    rfl
  · have entry : (place, node) ∈ tree.entries := by
      obtain ⟨front, back, heq, -⟩ := List.lookup_eq_some_iff.1 there
      rw [heq]
      simp
    exact h (place, node) entry

theorem node_bare (place : Place) : (bare place).node? place = some .directory := by
  by_cases root : place = []
  · rw [root]
    rfl
  · rw [node?, if_neg root]
    have directories : ∀ entry ∈ (bare place).entries, entry.2 = .directory := by
      simp [bare]
    have deep : 0 < place.length := List.length_pos_iff.2 root
    have inside : (place, Node.directory) ∈ (bare place).entries := by
      refine List.mem_map.2 ⟨place.length - 1, List.mem_range.2 (Nat.sub_one_lt_of_lt deep), ?_⟩
      rw [Nat.sub_add_cancel deep, List.take_length]
    cases found : (bare place).entries.lookup place with
    | none => simpa using List.lookup_eq_none_iff.1 found _ inside
    | some node =>
      obtain ⟨front, back, whole, -⟩ := List.lookup_eq_some_iff.1 found
      have isDirectory := directories (place, node) (by simp [whole])
      exact congrArg some isDirectory

/-- A dump whose name already ends like a table's, in a tree with nothing else but the directories it
stands in. -/
def dumpIn (place : Place) : Tree :=
  (bare place).put (place ++ ["a.csv"]) (.file [0x7B, 0x7D])

theorem findTarget_dumpIn (place : Place) :
    (dumpIn place).findTarget "a.csv" = .ok (some (place ++ ["a.csv"])) := by
  have directory : (dumpIn place).node? place = some .directory := by
    rw [dumpIn, node_put_of_ne _ (by simp), node_bare]
  have walks : (dumpIn place).walk place ([].reverse ++ [.stay]) = .ok place :=
    walk_cons_ok.2 ⟨directory, rfl, rfl⟩
  have sound : pathFault? "a.csv" = none := by decide +kernel
  have route : (dumpIn place).route "a.csv" = (place, [.down "a.csv"]) := rfl
  simp only [findTarget, sound, route, List.reverse_singleton, walks]
  rfl

theorem find_dumpIn (place : Place) :
    (dumpIn place).find "a.csv" = .ok (place ++ ["a.csv"], .file [0x7B, 0x7D]) :=
  find_of_findTarget (findTarget_dumpIn place) (node_put_self _ (by simp) _)

def dumpAlone : Tree := dumpIn ["dives"]

theorem rooted_dumpAlone : Rooted dumpAlone := rooted_of_entries (by decide +kernel)

theorem overruns_dumpAlone :
    Overruns dumpAlone (Path.exportPath "a.csv" (some "new/..")) "a.csv" ["dives", "a.csv"] :=
  ⟨.absent (by decide +kernel), dumpAlone.put ["dives", "new"] .directory, by rfl, by rfl⟩

def longName : String := String.ofList (List.replicate 255 'd')

/-- So far down that no path of 4095 bytes leads there from the root. -/
def farDown : Place := List.replicate 16 longName

theorem isNameable_farDown : (dumpIn farDown).isNameable "a.csv" = false := by
  have route : (dumpIn farDown).route "a.csv" = (farDown, [.down "a.csv"]) := rfl
  have name : longName.utf8ByteSize = 255 := by decide +kernel
  have file : "a.csv".utf8ByteSize = 5 := rfl
  have size : (placeText (farDown ++ ["a.csv"])).utf8ByteSize = 16 * 256 + 6 := by
    rw [size_placeText_concat (by simp [farDown]), farDown, size_placeText_replicate, name, file]
  rw [isNameable, route]
  simp [fitsAbsolute, size, longestPath]

theorem input_kept_unless_overrun_dumpAlone :
    dumpAlone.find "a.csv" = .ok (["dives", "a.csv"], .file [0x7B, 0x7D]) ∧
      (exportTo storage [] "a.csv" none false dumpAlone).2.read "a.csv" = .ok [0x7B, 0x7D] ∧
      (exportTo storage [] "a.csv" (some "new/..") false dumpAlone).2.find "a.csv" =
        .ok (["dives", "a.csv"], .file (Utf8.encode (tableText []).toList)) ∧
      (exportTo storage [] "a.csv" none false (dumpIn farDown)).2.find "a.csv" =
        .ok (farDown ++ ["a.csv"], .file (Utf8.encode (tableText []).toList)) := by
  obtain ⟨kept, -, -, safe, -⟩ :=
    input_kept_unless_overrun dumpAlone [] "a.csv" none false _ _ (find_dumpIn _)
  obtain ⟨-, lost, -⟩ :=
    input_kept_unless_overrun dumpAlone [] "a.csv" (some "new/..") false _ _ (find_dumpIn _)
  obtain ⟨-, lost', far, -⟩ :=
    input_kept_unless_overrun (dumpIn farDown) [] "a.csv" none false _ _ (find_dumpIn farDown)
  have near : dumpAlone.isNameable "a.csv" = true := by decide +kernel
  have here : ∀ parent, Path.parent? (Path.exportPath "a.csv" none) = some parent → parent ≠ "" →
      (dumpIn farDown).isPresent parent = true := by
    intro parent above named
    cases above
    exact absurd rfl named
  have overrun := (far here).2 ⟨findTarget_dumpIn farDown, .inl isNameable_farDown⟩
  exact ⟨find_dumpIn _, (kept (safe rooted_dumpAlone (.inl rfl) near near)).2,
    (lost overruns_dumpAlone).2, (lost' overrun).2⟩

/-- An output directory that steps into a missing directory and out again loses the input. -/
theorem dumpAlone_lost :
    Rooted dumpAlone ∧ (dumpAlone.read "a.csv").toOption = some [0x7B, 0x7D] ∧
      ((exportTo storage [] "a.csv" (some "new/..") false dumpAlone).2.read "a.csv").toOption ≠
        some [0x7B, 0x7D] :=
  ⟨rooted_dumpAlone, by decide +kernel, by decide +kernel⟩

end Tree

end DiveTable
