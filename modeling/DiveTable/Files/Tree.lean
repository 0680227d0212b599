import DiveTable.Files.Path
import DiveTable.Files.Storage
import DiveTable.Text.Utf8

/-! A tree of files in memory. Its places are lists of names from the root; a place holds a file,
a directory, or a link to a device that is always full. Paths are resolved place by place, and
each step needs a directory to start from. -/
namespace DiveTable

inductive Node where
  | file (bytes : List UInt8)
  | directory
  | fullDevice
  deriving DecidableEq, Repr

abbrev Place := List String

structure Tree where
  entries : List (Place × Node)
  /-- Where relative paths start. -/
  current : Place
  deriving DecidableEq, Repr

namespace Tree

def node? (tree : Tree) (place : Place) : Option Node :=
  if place = [] then some .directory else tree.entries.lookup place

def put (tree : Tree) (place : Place) (node : Node) : Tree :=
  { tree with entries := (place, node) :: tree.entries.filter fun entry => entry.1 ≠ place }

@[simp] theorem node_root (tree : Tree) : tree.node? [] = some .directory := rfl

@[simp] theorem node_put_self (tree : Tree) {place : Place} (h : place ≠ []) (node : Node) :
    (tree.put place node).node? place = some node := by
  simp [node?, put, h]

theorem lookup_filter_of_ne (entries : List (Place × Node)) {place other : Place}
    (h : other ≠ place) :
    (entries.filter fun entry => entry.1 ≠ place).lookup other = entries.lookup other := by
  induction entries with
  | nil => rfl
  | cons entry rest ih =>
    obtain ⟨p, n⟩ := entry
    by_cases hp : p = place
    · have ho : (other == p) = false := beq_eq_false_iff_ne.2 (hp ▸ h)
      simp only [List.lookup_cons, ho, ← ih]
      simp [hp]
    · rw [List.filter_cons_of_pos (by simpa using hp), List.lookup_cons, List.lookup_cons, ih]

theorem node_put_of_ne (tree : Tree) {place other : Place} (h : other ≠ place) (node : Node) :
    (tree.put place node).node? other = tree.node? other := by
  unfold node? put
  rw [List.lookup_cons, beq_eq_false_iff_ne.2 h, lookup_filter_of_ne _ h]

inductive Step where
  | stay
  | up
  | down (name : String)
  deriving DecidableEq, Repr

def Step.ofSegment (segment : Path.Segment) : Step :=
  if segment = [] ∨ segment = Path.here then .stay
  else if segment = Path.up then .up
  else .down (String.ofList segment)

def Step.apply (place : Place) : Step → Place
  | stay => place
  | up => place.dropLast
  | down name => place ++ [name]

def route (tree : Tree) (path : String) : Place × List Step :=
  match Path.segments path with
  | [] :: rest => ([], rest.map Step.ofSegment)
  | segments => (tree.current, segments.map Step.ofSegment)

def longestName : Nat := 255

def longestPath : Nat := 4095

def Step.isTooLong : Step → Bool
  | down name => longestName < name.utf8ByteSize
  | _ => false

def walk (tree : Tree) : Place → List Step → Except OsFault Place
  | place, [] => .ok place
  | place, step :: steps =>
    match tree.node? place with
    | some .directory =>
      if step.isTooLong then .error .nameTooLong else walk tree (step.apply place) steps
    | some _ => .error .notDirectory
    | none => .error .notFound

def pathFault? (path : String) : Option OsFault :=
  if path.toList.contains '\x00' then some .nulInPath
  else if path = "" then some .notFound
  else if longestPath < path.utf8ByteSize then some .nameTooLong
  else none

@[simp] theorem pathFault?_eq_none_iff {path : String} :
    pathFault? path = none ↔
      '\x00' ∉ path.toList ∧ path ≠ "" ∧ path.utf8ByteSize ≤ longestPath := by
  unfold pathFault?
  by_cases h : '\x00' ∈ path.toList <;> by_cases k : path = "" <;> simp [h, k]

def resolve (tree : Tree) (path : String) : Except OsFault (Place × Node) :=
  let (start, steps) := tree.route path
  match tree.walk start steps with
  | .error fault => .error fault
  | .ok place =>
    match tree.node? place with
    | some node => .ok (place, node)
    | none => .error .notFound

def find (tree : Tree) (path : String) : Except OsFault (Place × Node) :=
  match pathFault? path with
  | some fault => .error fault
  | none => tree.resolve path

/-- The place that the last name of a path stands for, in a directory that exists. Other last
steps stand for a directory, which must exist. -/
def findTarget (tree : Tree) (path : String) : Except OsFault (Option Place) :=
  match pathFault? path with
  | some fault => .error fault
  | none =>
    let (start, steps) := tree.route path
    match steps.reverse with
    | .down name :: above =>
      match tree.walk start (above.reverse ++ [.stay]) with
      | .ok place =>
        if (Step.down name).isTooLong then .error .nameTooLong
        else .ok (some (place ++ [name]))
      | .error fault => .error fault
    | _ =>
      match tree.walk start (steps ++ [.stay]) with
      | .ok _ => .ok none
      | .error fault => .error fault

def fullDevicePath : String := "/dev/full"

def placeText (place : Place) : String := "/" ++ "/".intercalate place

def read (tree : Tree) (path : String) : Except OsFault (List UInt8) :=
  match tree.find path with
  | .ok (_, .file bytes) => .ok bytes
  | .ok (_, .directory) => .error .isDirectory
  | .ok (_, .fullDevice) => .error .outOfMemory
  | .error fault => .error fault

/-- Whether every name on the way can be asked for by its absolute path, with a slash behind it if
the way goes on. -/
def fitsAbsolute : Place → List Step → Bool
  | _, [] => true
  | place, step :: steps =>
    (match step with
      | .down name =>
        (placeText (place ++ [name])).utf8ByteSize + (if steps = [] then 0 else 1) ≤ longestPath
      | _ => true) && fitsAbsolute (step.apply place) steps

def isNameable (tree : Tree) (path : String) : Bool :=
  fitsAbsolute (tree.route path).1 (tree.route path).2

/-- The absolute path of what exists. It is found name by name, so the path itself may be of any
length, but no absolute path on the way may be too long. -/
def canonical (tree : Tree) (path : String) : Option String :=
  match pathFault? path with
  | some .nulInPath | some .notFound => none
  | _ =>
    if tree.isNameable path then
      match tree.resolve path with
      | .ok (_, .fullDevice) => some fullDevicePath
      | .ok (place, _) => some (placeText place)
      | .error _ => none
    else none

def isPresent (tree : Tree) (path : String) : Bool := (tree.find path).toBool

def isDirectory (tree : Tree) (path : String) : Bool :=
  match tree.find path with
  | .ok (_, .directory) => true
  | _ => false

def makeDirectory (tree : Tree) (path : String) : Except OsFault Tree :=
  match tree.findTarget path with
  | .error fault => .error fault
  | .ok none => .error .alreadyExists
  | .ok (some place) =>
    match tree.node? place with
    | some _ => .error .alreadyExists
    | none => .ok (tree.put place .directory)

def create (tree : Tree) (path : String) : Except OsFault Tree :=
  match tree.findTarget path with
  | .error fault => .error fault
  | .ok none => .error .isDirectory
  | .ok (some place) =>
    match tree.node? place with
    | some .directory => .error .isDirectory
    | some .fullDevice => .ok tree
    | _ => .ok (tree.put place (.file []))

def write (tree : Tree) (path text : String) : Except OsFault Tree :=
  match tree.find path with
  | .ok (place, .file _) => .ok (tree.put place (.file (Utf8.encode text.toList)))
  | .ok (_, .directory) => .error .isDirectory
  | .ok (_, .fullDevice) => .error .noSpace
  | .error fault => .error fault

/-- Keeps the changed tree, or the tree as it was together with the fault. -/
def change (step : Tree → Except OsFault Tree) : StateM Tree (Except OsFault Unit) := fun tree =>
  match step tree with
  | .ok tree => (.ok (), tree)
  | .error fault => (.error fault, tree)

def storage : Storage (StateM Tree) where
  read path := fun tree => (tree.read path, tree)
  canonical path := fun tree => (tree.canonical path, tree)
  isPresent path := fun tree => (tree.isPresent path, tree)
  isDirectory path := fun tree => (tree.isDirectory path, tree)
  makeDirectory path := change (·.makeDirectory path)
  create path := change (·.create path)
  write path text := change (·.write path text)

def bare (current : Place) : Tree :=
  { entries := (List.range current.length).map fun n => (current.take (n + 1), .directory)
    current }

def pave (tree : Tree) (place : Place) : List Step → Place × Tree
  | [] => (place, tree)
  | step :: steps =>
    let next := step.apply place
    if (tree.node? next).isSome then pave tree next steps
    else pave (tree.put next .directory) next steps

def plantDirectory (tree : Tree) (path : String) : Tree :=
  let (start, steps) := tree.route path
  (tree.pave start steps).2

def plant (tree : Tree) (path : String) (node : Node) : Tree :=
  let (start, steps) := tree.route path
  match steps.reverse with
  | .down name :: above =>
    let (place, tree) := tree.pave start above.reverse
    tree.put (place ++ [name]) node
  | _ => tree

end Tree

end DiveTable
