import DiveTable.Proofs.ExportFrame

/-! # Trees that differ in one file

An export does not look into a file. On two trees that are alike but for the bytes of one file it
takes the same steps and ends the same way, and what it leaves is alike again: the file keeps its
bytes on both sides, or both sides hold the same table. -/
namespace DiveTable

namespace Tree

/-- Two trees with a file at a place, the same but for its bytes. -/
structure Alike (place : Place) (a b : Tree) : Prop where
  current : b.current = a.current
  elsewhere : ∀ other, other ≠ place → b.node? other = a.node? other
  file : ∃ bytes bytes', a.node? place = some (.file bytes) ∧ b.node? place = some (.file bytes')

section

variable {place : Place} {a b : Tree}

theorem Alike.node_cases (h : Alike place a b) (other : Place) :
    b.node? other = a.node? other ∨ other = place ∧ ∃ bytes bytes',
      a.node? other = some (.file bytes) ∧ b.node? other = some (.file bytes') := by
  by_cases here : other = place
  · subst here
    exact .inr ⟨rfl, h.file⟩
  · exact .inl (h.elsewhere other here)

theorem Alike.walk_eq (h : Alike place a b) (start : Place) (steps : List Step) :
    b.walk start steps = a.walk start steps := by
  induction steps generalizing start with
  | nil => rfl
  | cons step steps ih =>
    rw [walk, walk]
    rcases h.node_cases start with same | ⟨-, bytes, bytes', ha, hb⟩
    · simp only [same, ih]
    · rw [ha, hb]

theorem Alike.resolve_cases (h : Alike place a b) (path : String) :
    b.resolve path = a.resolve path ∨ ∃ bytes bytes',
      a.resolve path = .ok (place, .file bytes) ∧ b.resolve path = .ok (place, .file bytes') := by
  rw [resolve, resolve, route_of_current h.current]
  obtain ⟨start, steps⟩ := a.route path
  dsimp only
  rw [h.walk_eq]
  cases a.walk start steps with
  | error fault => exact .inl rfl
  | ok arrived =>
    dsimp only
    rcases h.node_cases arrived with same | ⟨rfl, bytes, bytes', ha, hb⟩
    · rw [same]
      exact .inl rfl
    · rw [ha, hb]
      exact .inr ⟨bytes, bytes', rfl, rfl⟩

theorem Alike.find_cases (h : Alike place a b) (path : String) :
    b.find path = a.find path ∨ ∃ bytes bytes',
      a.find path = .ok (place, .file bytes) ∧ b.find path = .ok (place, .file bytes') := by
  rw [find, find]
  cases pathFault? path with
  | some fault => exact .inl rfl
  | none => exact h.resolve_cases path

theorem Alike.canonical_eq (h : Alike place a b) (path : String) :
    b.canonical path = a.canonical path := by
  rw [canonical, canonical, isNameable, isNameable, route_of_current h.current]
  rcases h.resolve_cases path with same | ⟨bytes, bytes', ha, hb⟩
  · rw [same]
  · rw [ha, hb]

theorem Alike.isPresent_eq (h : Alike place a b) (path : String) :
    b.isPresent path = a.isPresent path := by
  rw [isPresent, isPresent]
  rcases h.find_cases path with same | ⟨bytes, bytes', ha, hb⟩
  · rw [same]
  · rw [ha, hb]
    rfl

theorem Alike.isDirectory_eq (h : Alike place a b) (path : String) :
    b.isDirectory path = a.isDirectory path := by
  rw [isDirectory, isDirectory]
  rcases h.find_cases path with same | ⟨bytes, bytes', ha, hb⟩
  · rw [same]
  · rw [ha, hb]

theorem Alike.findTarget_eq (h : Alike place a b) (path : String) :
    b.findTarget path = a.findTarget path := by
  simp only [findTarget, route_of_current h.current, h.walk_eq]

theorem node_put_same (place : Place) (node : Node) :
    (b.put place node).node? place = (a.put place node).node? place := by
  by_cases root : place = []
  · rw [root]
    rfl
  · rw [node_put_self b root, node_put_self a root]

/-- The same change on both sides; only a file may come where the trees differ. -/
theorem Alike.put (h : Alike place a b) {target : Place} {node : Node}
    (fits : target = place → ∃ bytes, node = .file bytes) :
    Alike place (a.put target node) (b.put target node) := by
  refine ⟨h.current, fun other elsewhere => ?_, ?_⟩
  · by_cases same : other = target
    · subst same
      exact node_put_same other node
    · rw [node_put_of_ne b same, node_put_of_ne a same, h.elsewhere other elsewhere]
  · obtain ⟨bytes, bytes', ha, hb⟩ := h.file
    by_cases same : place = target
    · subst same
      obtain ⟨content, rfl⟩ := fits rfl
      have nonroot : place ≠ [] := by
        rintro rfl
        cases ha
      exact ⟨content, content, node_put_self a nonroot _, node_put_self b nonroot _⟩
    · exact ⟨bytes, bytes', (node_put_of_ne a same node).trans ha,
        (node_put_of_ne b same node).trans hb⟩

theorem alike_put {bytes : List UInt8} (there : a.node? place = some (.file bytes))
    (bytes' : List UInt8) : Alike place a (a.put place (.file bytes')) := by
  have nonroot : place ≠ [] := by
    rintro rfl
    cases there
  exact ⟨rfl, fun other elsewhere => node_put_of_ne a elsewhere _, bytes, bytes', there,
    node_put_self a nonroot _⟩

theorem Alike.read_of_find (h : Alike place a b) {path : String} {bytes bytes' : List UInt8}
    (found : a.find path = .ok (place, .file bytes)) (there : b.node? place = some (.file bytes')) :
    b.read path = .ok bytes' := by
  obtain ⟨sound, walks, -⟩ := find_eq_ok.1 found
  have found' : b.find path = .ok (place, .file bytes') := by
    refine find_eq_ok.2 ⟨sound, ?_, there⟩
    rw [route_of_current h.current, h.walk_eq]
    exact walks
  rw [read, found']

end

/-- An action that answers the same on alike trees and leaves them alike. -/
def Agreeing {α : Type} (place : Place) (action : StateM Tree α) : Prop :=
  ∀ a b, Alike place a b → (action b).1 = (action a).1 ∧ Alike place (action a).2 (action b).2

section

variable {place : Place}

theorem agreeing_inherited (place : Place) :
    Inherited (m := StateM Tree) fun _ => Agreeing place where
  pure _ _ _ alike := ⟨rfl, alike⟩
  bind {_ _ action _} h k a b alike := by
    obtain ⟨same, left⟩ := h a b alike
    rw [bind_apply, bind_apply, same]
    exact k (action a).1 _ _ left

theorem agreeing_pure {α : Type} (x : α) : Agreeing place (pure x) :=
  (agreeing_inherited place).pure x

theorem Agreeing.bind {α β : Type} {action : StateM Tree α} {next : α → StateM Tree β}
    (h : Agreeing place action) (k : ∀ x, Agreeing place (next x)) :
    Agreeing place (action >>= next) :=
  (agreeing_inherited place).bind h k

theorem agreeing_canonical (path : String) : Agreeing place (storage.canonical path) :=
  fun _ _ h => ⟨h.canonical_eq path, h⟩

theorem agreeing_isPresent (path : String) : Agreeing place (storage.isPresent path) :=
  fun _ _ h => ⟨h.isPresent_eq path, h⟩

theorem agreeing_isDirectory (path : String) : Agreeing place (storage.isDirectory path) :=
  fun _ _ h => ⟨h.isDirectory_eq path, h⟩

def StepsAlike (place : Place) (a b : Except OsFault Tree) : Prop :=
  (∃ fault, a = .error fault ∧ b = .error fault) ∨
    ∃ left left', a = .ok left ∧ b = .ok left' ∧ Alike place left left'

theorem agreeing_change {step : Tree → Except OsFault Tree}
    (h : ∀ a b, Alike place a b → StepsAlike place (step a) (step b)) :
    Agreeing place (change step) := by
  intro a b alike
  rcases h a b alike with ⟨fault, ha, hb⟩ | ⟨left, left', ha, hb, still⟩
  · rw [change_of_error step ha, change_of_error step hb]
    exact ⟨rfl, alike⟩
  · rw [change_of_ok step ha, change_of_ok step hb]
    exact ⟨rfl, still⟩

theorem agreeing_makeDirectory (path : String) :
    Agreeing place (storage.makeDirectory path) := by
  refine agreeing_change fun a b alike => ?_
  rw [makeDirectory, makeDirectory, alike.findTarget_eq]
  rcases a.findTarget path with fault | _ | target
  · exact .inl ⟨fault, rfl, rfl⟩
  · exact .inl ⟨_, rfl, rfl⟩
  · dsimp only
    rcases alike.node_cases target with same | ⟨-, bytes, bytes', ha, hb⟩
    · rw [same]
      cases there : a.node? target with
      | some node => exact .inl ⟨_, rfl, rfl⟩
      | none =>
        refine .inr ⟨_, _, rfl, rfl, alike.put ?_⟩
        rintro rfl
        obtain ⟨bytes, -, file, -⟩ := alike.file
        rw [there] at file
        cases file
    · rw [ha, hb]
      exact .inl ⟨_, rfl, rfl⟩

theorem agreeing_create (path : String) : Agreeing place (storage.create path) := by
  refine agreeing_change fun a b alike => ?_
  have emptied (target : Place) : Alike place (a.put target (.file [])) (b.put target (.file [])) :=
    alike.put fun _ => ⟨[], rfl⟩
  rw [create, create, alike.findTarget_eq]
  rcases a.findTarget path with fault | _ | target
  · exact .inl ⟨fault, rfl, rfl⟩
  · exact .inl ⟨_, rfl, rfl⟩
  · dsimp only
    rcases alike.node_cases target with same | ⟨-, bytes, bytes', ha, hb⟩
    · rw [same]
      rcases a.node? target with _ | bytes | _ | _
      · exact .inr ⟨_, _, rfl, rfl, emptied target⟩
      · exact .inr ⟨_, _, rfl, rfl, emptied target⟩
      · exact .inl ⟨_, rfl, rfl⟩
      · exact .inr ⟨_, _, rfl, rfl, alike⟩
    · rw [ha, hb]
      exact .inr ⟨_, _, rfl, rfl, emptied target⟩

theorem agreeing_write (path text : String) : Agreeing place (storage.write path text) := by
  refine agreeing_change fun a b alike => ?_
  have written (target : Place) :
      Alike place (a.put target (.file (Utf8.encode text.toList)))
        (b.put target (.file (Utf8.encode text.toList))) :=
    alike.put fun _ => ⟨_, rfl⟩
  rw [write, write]
  rcases alike.find_cases path with same | ⟨bytes, bytes', ha, hb⟩
  · rw [same]
    rcases a.find path with fault | ⟨target, bytes | _ | _⟩
    · exact .inl ⟨fault, rfl, rfl⟩
    · exact .inr ⟨_, _, rfl, rfl, written target⟩
    · exact .inl ⟨_, rfl, rfl⟩
    · exact .inl ⟨_, rfl, rfl⟩
  · rw [ha, hb]
    exact .inr ⟨_, _, rfl, rfl, written place⟩

theorem agreeing_isSameFile (a b : String) : Agreeing place (storage.isSameFile a b) := by
  unfold Storage.isSameFile
  refine (agreeing_canonical a).bind fun first => (agreeing_canonical b).bind fun second => ?_
  split <;> exact agreeing_pure _

theorem agreeing_prepareParent (path : String) : Agreeing place (prepareParent storage path) :=
  (agreeing_inherited place).prepareParent agreeing_isPresent agreeing_isDirectory path
    fun above _ => agreeing_makeDirectory above

theorem agreeing_writeTable (path : String) (items : List (Except Fault Event)) (debug : Bool) :
    Agreeing place (writeTable storage path items debug) := by
  unfold writeTable
  dsimp only
  split
  · exact (agreeing_pure _).bind fun refused => agreeing_pure _
  · refine (agreeing_write _ _).bind fun written => ?_
    split <;> exact (agreeing_pure _).bind fun refused => agreeing_pure _

theorem agreeing_exportTo (items : List (Except Fault Event)) (input : String)
    (outputDir : Option String) (debug : Bool) :
    Agreeing place (exportTo storage items input outputDir debug) := by
  unfold exportTo
  refine (agreeing_isSameFile _ _).bind fun same => ?_
  split
  · exact agreeing_pure _
  · refine (agreeing_prepareParent _).bind fun prepared => ?_
    split
    · exact agreeing_pure _
    · refine (agreeing_create _).bind fun created => ?_
      split
      · exact agreeing_pure _
      · exact agreeing_writeTable _ _ _

end

/-- Two files that both keep their bytes, or both come to hold the same. -/
def KeptOrSame (place : Place) (before before' after after' : Tree) : Prop :=
  (after.node? place = before.node? place ∧ after'.node? place = before'.node? place) ∨
    after'.node? place = after.node? place

theorem keptOrSame_exportTo {place : Place} {a b : Tree} (alike : Alike place a b)
    (items : List (Except Fault Event)) (input : String) (outputDir : Option String)
    (debug : Bool) :
    KeptOrSame place a b (exportTo storage items input outputDir debug a).2
      (exportTo storage items input outputDir debug b).2 := by
  obtain ⟨bytes, bytes', ha, hb⟩ := alike.file
  obtain ⟨same, -⟩ := agreeing_exportTo items input outputDir debug a b alike
  rcases fails_or_opens a items input outputDir debug with
    ⟨⟨failure, failed⟩, makes⟩ | ⟨made, opened, opens⟩
  · rcases fails_or_opens b items input outputDir debug with
      ⟨-, makes'⟩ | ⟨made', opened', opens'⟩
    · left
      rw [ha, hb]
      exact ⟨makes.node place _ ha, makes'.node place _ hb⟩
    · rw [← same, (exportTo_of_opens opens' items debug).2] at failed
      cases failed
  · obtain ⟨after, written⟩ := exportTo_of_opens opens items debug
    rcases fails_or_opens b items input outputDir debug with
      ⟨⟨failure, failed⟩, -⟩ | ⟨made', opened', opens'⟩
    · rw [same, written] at failed
      cases failed
    · obtain ⟨after', -⟩ := exportTo_of_opens opens' items debug
      obtain rfl : opened' = opened := by
        rw [opens.destination, opens'.destination, destination_of_current alike.current]
      rw [after, after']
      by_cases here : place = opened'
      · subst here
        exact .inr (node_put_same place _)
      · left
        rw [node_put_of_ne made here, node_put_of_ne made' here, ha, hb]
        exact ⟨opens.makes.node place _ ha, opens'.makes.node place _ hb⟩

end Tree

end DiveTable
