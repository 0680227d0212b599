import DiveTable.Text.Split

/-! Paths as texts. Between slashes stand segments; empty ones and single points count for
nothing, but for a point in front of a relative path. -/
namespace DiveTable.Path

abbrev Segment := List Char

def here : Segment := ['.']
def up : Segment := ['.', '.']

def segments (path : String) : List Segment := splitAt '/' path.toList

def ofSegments (segments : List Segment) : String := String.ofList (['/'].intercalate segments)

@[simp] theorem ofSegments_segments (path : String) : ofSegments (segments path) = path := by
  rw [ofSegments, segments, intercalate_splitAt]
  exact String.ofList_toList

inductive Component where
  | root
  | here
  | up
  | name (name : Segment)
  deriving DecidableEq, Repr

def component? (segment : Segment) : Option Component :=
  if segment = [] ∨ segment = here then none
  else if segment = up then some .up
  else some (.name segment)

def components (path : String) : List Component :=
  match segments path with
  | [] => []
  | first :: rest =>
    let front :=
      if path = "" then none
      else if first = [] then some .root
      else if first = here then some .here
      else component? first
    front.toList ++ rest.filterMap component?

/-- Segments in reverse, without those at the end that count for nothing. The first segment of
the path is kept: it is the root, a point, or a name. -/
def dropIdle : List Segment → List Segment
  | [] => []
  | [first] => [first]
  | last :: rest => if last = [] ∨ last = here then dropIdle rest else last :: rest

def fileName? (path : String) : Option Segment :=
  match dropIdle (segments path).reverse with
  | [] => none
  | last :: _ => if last = [] ∨ last = here ∨ last = up then none else some last

/-- The path without its last segment; the root and the empty path have none to lose. -/
def parent? (path : String) : Option String :=
  match dropIdle (segments path).reverse with
  | [] => none
  | [first] => if first = [] then none else some ""
  | _ :: rest =>
    let rest := dropIdle rest
    if rest = [[]] then some "/" else some (ofSegments rest.reverse)

def join (base : String) (name : String) : String :=
  if base = "" ∨ base.toList.getLast? = some '/' then base ++ name else base ++ "/" ++ name

def ancestors (path : String) : List String := go path.length path
where
  go : Nat → String → List String
    | 0, _ => []
    | fuel + 1, path =>
      if path = "" then []
      else path :: match parent? path with
        | none => []
        | some parent => go fuel parent

/-- The name of a table for the name of a dump: what follows the last point is replaced, or the
extension added where there is none. A point in front of the name starts no extension; a name
with a single point before its extension is cut back to two points. -/
def tableName (name : Segment) : Segment :=
  match cutAt '.' name.reverse with
  | (_, none) => name ++ ".csv".toList
  | (_, some []) => name ++ ".csv".toList
  | (_, some stem) => if stem = here then up else stem.reverse ++ ".csv".toList

def defaultTableName : String := "output.csv"

def exportPath (input : String) (outputDir : Option String) : String :=
  let name := match fileName? input with
    | some name => String.ofList (tableName name)
    | none => defaultTableName
  match outputDir with
  | some dir => join dir name
  | none =>
    match parent? input with
    | some parent => join parent name
    | none => name

end DiveTable.Path
