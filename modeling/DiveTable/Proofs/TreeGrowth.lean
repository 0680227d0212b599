import DiveTable.Export
import DiveTable.Files.Tree

/-! # Trees that grow

Where the steps of a path lead is told by the steps, and only directories have to stand on the way.
What an export makes in front of its file is put where nothing was, so whatever was found before
is still found. -/
namespace DiveTable

/-! ## Sequences of actions -/

/-- A property of actions that a sequence of them has if each of them does. -/
structure Inherited {m : Type → Type} [Monad m] (p : (α : Type) → m α → Prop) : Prop where
  pure {α : Type} (a : α) : p α (Pure.pure a)
  bind {α β : Type} {action : m α} {next : α → m β} (h : p α action) (k : ∀ a, p β (next a)) :
    p β (action >>= next)

def directoriesOf (path : String) : List String := (Path.parent? path).elim [] Path.ancestors

namespace Inherited

variable {m : Type → Type} [Monad m] {p : (α : Type) → m α → Prop} {files : Storage m}

theorem existing (h : Inherited p) (looks : ∀ path, p Bool (files.isDirectory path))
    (path : String) (fault : OsFault) : p _ (Storage.makeAll.existing files path fault) := by
  unfold Storage.makeAll.existing
  refine h.bind (looks path) fun there => ?_
  split <;> exact h.pure _

theorem makeAll (h : Inherited p) (looks : ∀ path, p Bool (files.isDirectory path))
    {paths : List String} (makes : ∀ path ∈ paths, p _ (files.makeDirectory path)) :
    p _ (files.makeAll paths) := by
  induction paths with
  | nil => exact h.pure _
  | cons path above ih =>
    have first := makes path List.mem_cons_self
    have others := ih fun path mem => makes path (List.mem_cons_of_mem _ mem)
    unfold Storage.makeAll
    refine h.bind first fun outcome => ?_
    split
    · exact h.pure _
    · refine h.bind others fun parents => ?_
      split
      · exact h.pure _
      · refine h.bind first fun second => ?_
        split
        · exact h.pure _
        · exact h.existing looks path _
    · exact h.existing looks path _

/-- What is in front of the file has any property that its parts have. -/
theorem prepareParent (h : Inherited p) (sees : ∀ path, p Bool (files.isPresent path))
    (looks : ∀ path, p Bool (files.isDirectory path)) (path : String)
    (makes : ∀ above ∈ directoriesOf path, p _ (files.makeDirectory above)) :
    p _ (prepareParent files path) := by
  unfold DiveTable.prepareParent
  split
  · exact h.pure _
  · rename_i parent above
    rw [directoriesOf, above] at makes
    split
    · exact h.pure _
    · refine h.bind (sees parent) fun there => ?_
      split
      · exact h.pure _
      · refine h.bind (h.makeAll looks makes) fun outcome => ?_
        split <;> exact h.pure _

end Inherited

/-! ## Paths in a tree -/

namespace Tree

/-- Where the steps of a path lead, whatever stands on the way. -/
def destination (tree : Tree) (path : String) : Place :=
  (tree.route path).2.foldl Step.apply (tree.route path).1

theorem walk_cons_ok {tree : Tree} {place arrived : Place} {step : Step} {steps : List Step} :
    tree.walk place (step :: steps) = .ok arrived ↔
      tree.node? place = some .directory ∧ step.isTooLong = false ∧
        tree.walk (step.apply place) steps = .ok arrived := by
  rw [walk]
  cases tree.node? place with
  | none => simp
  | some node =>
    cases node with
    | file | fullDevice => simp
    | directory => cases step.isTooLong <;> simp

theorem walk_append_ok {tree : Tree} {place arrived : Place} {front back : List Step} :
    tree.walk place (front ++ back) = .ok arrived ↔
      ∃ middle, tree.walk place front = .ok middle ∧ tree.walk middle back = .ok arrived := by
  induction front generalizing place with
  | nil => simp [walk]
  | cons step front ih =>
    rw [List.cons_append, walk_cons_ok, ih]
    constructor
    · rintro ⟨directory, short, middle, hfront, hback⟩
      exact ⟨middle, walk_cons_ok.2 ⟨directory, short, hfront⟩, hback⟩
    · rintro ⟨middle, hfront, hback⟩
      obtain ⟨directory, short, hfront⟩ := walk_cons_ok.1 hfront
      exact ⟨directory, short, middle, hfront, hback⟩

theorem eq_foldl_of_walk {tree : Tree} {place arrived : Place} {steps : List Step}
    (h : tree.walk place steps = .ok arrived) : arrived = steps.foldl Step.apply place := by
  induction steps generalizing place with
  | nil => exact (Except.ok.inj h).symm
  | cons step steps ih => exact ih (walk_cons_ok.1 h).2.2

theorem find_eq_ok {tree : Tree} {path : String} {place : Place} {node : Node} :
    tree.find path = .ok (place, node) ↔
      pathFault? path = none ∧ tree.walk (tree.route path).1 (tree.route path).2 = .ok place ∧
        tree.node? place = some node := by
  unfold find resolve
  cases hp : pathFault? path with
  | some fault => simp
  | none =>
    simp only [true_and]
    cases hw : tree.walk (tree.route path).1 (tree.route path).2 with
    | error fault => simp
    | ok arrived =>
      simp only [Except.ok.injEq]
      constructor
      · intro h
        cases hn : tree.node? arrived with
        | none => simp [hn] at h
        | some found =>
          simp only [hn, Except.ok.injEq, Prod.mk.injEq] at h
          obtain ⟨rfl, rfl⟩ := h
          exact ⟨rfl, hn⟩
      · rintro ⟨rfl, hn⟩
        rw [hn]

theorem destination_of_find {tree : Tree} {path : String} {place : Place} {node : Node}
    (h : tree.find path = .ok (place, node)) : tree.destination path = place :=
  (eq_foldl_of_walk (find_eq_ok.1 h).2.1).symm

/-- A target is reached by a last step down from a directory. -/
theorem findTarget_eq_some {tree : Tree} {path : String} {place : Place}
    (h : tree.findTarget path = .ok (some place)) :
    pathFault? path = none ∧
      tree.walk (tree.route path).1 (tree.route path).2 = .ok place ∧ place ≠ [] := by
  unfold findTarget at h
  cases hp : pathFault? path with
  | some fault => simp [hp] at h
  | none =>
    simp only [hp] at h
    refine ⟨rfl, ?_⟩
    split at h
    · rename_i name above hsteps
      have steps : (tree.route path).2 = above.reverse ++ [.down name] := by
        rw [← List.reverse_reverse (tree.route path).2, hsteps, List.reverse_cons]
      split at h
      · rename_i arrived walks
        obtain ⟨middle, above, stay⟩ := walk_append_ok.1 walks
        obtain ⟨directory, -, here⟩ := walk_cons_ok.1 stay
        obtain rfl : middle = arrived := Except.ok.inj here
        split at h
        · cases h
        · rename_i short
          obtain rfl : middle ++ [name] = place := Option.some.inj (Except.ok.inj h)
          have last : tree.walk middle [.down name] = .ok (middle ++ [name]) :=
            walk_cons_ok.2 ⟨directory, by simpa using short, rfl⟩
          exact ⟨steps ▸ walk_append_ok.2 ⟨middle, above, last⟩, by simp⟩
      · cases h
    · split at h <;> cases h

theorem find_of_findTarget {tree : Tree} {path : String} {place : Place} {node : Node}
    (h : tree.findTarget path = .ok (some place)) (there : tree.node? place = some node) :
    tree.find path = .ok (place, node) := by
  obtain ⟨sound, arrives, -⟩ := findTarget_eq_some h
  exact find_eq_ok.2 ⟨sound, arrives, there⟩

structure Grows (before after : Tree) : Prop where
  current : after.current = before.current
  node : ∀ place node, before.node? place = some node → after.node? place = some node

theorem Grows.refl (tree : Tree) : Grows tree tree := ⟨rfl, fun _ _ h => h⟩

theorem Grows.trans {a b c : Tree} (h : Grows a b) (k : Grows b c) : Grows a c :=
  ⟨k.current.trans h.current, fun place node there => k.node place node (h.node place node there)⟩

theorem route_of_current {before after : Tree} (h : after.current = before.current)
    (path : String) : after.route path = before.route path := by
  unfold route
  rw [h]

/-- A walk needs nothing but directories. -/
theorem walk_of_directories {before after : Tree}
    (h : ∀ place, before.node? place = some .directory → after.node? place = some .directory)
    {place arrived : Place} {steps : List Step} (walks : before.walk place steps = .ok arrived) :
    after.walk place steps = .ok arrived := by
  induction steps generalizing place with
  | nil => exact walks
  | cons step steps ih =>
    obtain ⟨directory, short, rest⟩ := walk_cons_ok.1 walks
    exact walk_cons_ok.2 ⟨h place directory, short, ih rest⟩

theorem find_of_directories {before after : Tree} (current : after.current = before.current)
    (h : ∀ place, before.node? place = some .directory → after.node? place = some .directory)
    {path : String} {place : Place} {node later : Node}
    (found : before.find path = .ok (place, node)) (there : after.node? place = some later) :
    after.find path = .ok (place, later) := by
  obtain ⟨sound, walks, -⟩ := find_eq_ok.1 found
  refine find_eq_ok.2 ⟨sound, ?_, there⟩
  rw [route_of_current current]
  exact walk_of_directories h walks

theorem Grows.find {before after : Tree} (h : Grows before after) {path : String} {place : Place}
    {node : Node} (found : before.find path = .ok (place, node)) :
    after.find path = .ok (place, node) :=
  find_of_directories h.current (fun place => h.node place .directory) found
    (h.node place node (find_eq_ok.1 found).2.2)

theorem grows_put {tree : Tree} {place : Place} (free : tree.node? place = none) (node : Node) :
    Grows tree (tree.put place node) := by
  refine ⟨rfl, fun other there h => ?_⟩
  have ne : other ≠ place := by
    rintro rfl
    rw [free] at h
    cases h
  rw [node_put_of_ne tree ne node, h]

theorem destination_of_current {before after : Tree} (h : after.current = before.current)
    (path : String) : after.destination path = before.destination path := by
  rw [destination, destination, route_of_current h]

theorem destination_of_findTarget {tree : Tree} {path : String} {place : Place}
    (h : tree.findTarget path = .ok (some place)) : place = tree.destination path :=
  eq_foldl_of_walk (findTarget_eq_some h).2.1

theorem makeDirectory_eq_ok {tree made : Tree} {path : String}
    (h : tree.makeDirectory path = .ok made) :
    tree.node? (tree.destination path) = none ∧
      made = tree.put (tree.destination path) .directory := by
  unfold makeDirectory at h
  split at h
  · cases h
  · cases h
  · rename_i place target
    obtain rfl := destination_of_findTarget target
    split at h
    · cases h
    · rename_i free
      exact ⟨free, (Except.ok.inj h).symm⟩

/-- A tree that has grown by directories only, each where one of these paths leads. -/
structure Makes (paths : List String) (before after : Tree) : Prop extends Grows before after where
  made : ∀ place node, before.node? place = none → after.node? place = some node →
    node = .directory ∧ ∃ path ∈ paths, before.destination path = place

theorem Makes.refl (paths : List String) (tree : Tree) : Makes paths tree tree := by
  refine ⟨Grows.refl tree, fun place node free there => ?_⟩
  rw [free] at there
  cases there

theorem Makes.trans {paths : List String} {a b c : Tree} (h : Makes paths a b)
    (k : Makes paths b c) : Makes paths a c := by
  refine ⟨h.toGrows.trans k.toGrows, fun place node free there => ?_⟩
  cases between : b.node? place with
  | none =>
    obtain ⟨directory, path, mem, leads⟩ := k.made place node between there
    exact ⟨directory, path, mem, (destination_of_current h.current path).symm.trans leads⟩
  | some other =>
    have same : other = node := Option.some.inj ((k.node place other between).symm.trans there)
    exact same ▸ h.made place other free between

theorem makes_makeDirectory {tree made : Tree} {path : String} {paths : List String}
    (mem : path ∈ paths) (h : tree.makeDirectory path = .ok made) : Makes paths tree made := by
  obtain ⟨free, rfl⟩ := makeDirectory_eq_ok h
  refine ⟨grows_put free .directory, fun place node absent there => ?_⟩
  by_cases same : place = tree.destination path
  · subst same
    have nonroot : tree.destination path ≠ [] := by
      intro root
      rw [root] at absent
      cases absent
    rw [node_put_self tree nonroot] at there
    exact ⟨(Option.some.inj there).symm, path, mem, rfl⟩
  · rw [node_put_of_ne tree same, absent] at there
    cases there

/-- An action on a tree that at most makes directories on these paths. -/
def Making {α : Type} (paths : List String) (action : StateM Tree α) : Prop :=
  ∀ tree, Makes paths tree (action tree).2

def Growing {α : Type} (action : StateM Tree α) : Prop := ∀ tree, Grows tree (action tree).2

theorem making_inherited (paths : List String) :
    Inherited (m := StateM Tree) fun _ => Making paths where
  pure _ := Makes.refl paths
  bind h k tree := (h tree).trans (k _ _)

theorem making_makeDirectory {paths : List String} {path : String} (mem : path ∈ paths) :
    Making paths (storage.makeDirectory path) := by
  intro tree
  show Makes paths tree (change (·.makeDirectory path) tree).2
  unfold change
  dsimp only
  split
  · rename_i made h
    exact makes_makeDirectory mem h
  · exact Makes.refl paths tree

theorem making_isDirectory (paths : List String) (path : String) :
    Making paths (storage.isDirectory path) :=
  Makes.refl paths

theorem making_isPresent (paths : List String) (path : String) :
    Making paths (storage.isPresent path) :=
  Makes.refl paths

theorem making_prepareParent (path : String) :
    Making (directoriesOf path) (prepareParent storage path) :=
  (making_inherited _).prepareParent (making_isPresent _) (making_isDirectory _) path
    fun _ => making_makeDirectory

theorem growing_prepareParent (path : String) : Growing (prepareParent storage path) :=
  fun tree => (making_prepareParent path tree).toGrows

theorem create_eq_ok {tree opened : Tree} {path : String} (h : tree.create path = .ok opened) :
    ∃ place, tree.findTarget path = .ok (some place) ∧
      tree.node? place ≠ some .directory ∧
      ((tree.node? place = some .fullDevice ∧ opened = tree) ∨
        (tree.node? place ≠ some .fullDevice ∧ opened = tree.put place (.file []))) := by
  unfold create at h
  split at h
  · cases h
  · cases h
  · rename_i place target
    refine ⟨place, target, ?_⟩
    split at h
    · cases h
    · rename_i device
      exact ⟨by simp [device], .inl ⟨device, (Except.ok.inj h).symm⟩⟩
    · rename_i notDirectory notDevice
      exact ⟨notDirectory, .inr ⟨notDevice, (Except.ok.inj h).symm⟩⟩

end Tree

end DiveTable
