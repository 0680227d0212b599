import DiveTable.Proofs.PathSegments

/-! # The components of a path

The file name of a path is its last component if that is a name, and what is above a path has its
other components. A name that is joined to a base is one component more, and what is above the
joined path has the components of the base. -/
namespace DiveTable.Path

def lead? (first : Segment) : Option Component :=
  if first = [] then some .root else if first = here then some .here else component? first

def componentsOf : List Segment → List Component
  | [] => []
  | first :: rest => (lead? first).toList ++ rest.filterMap component?

theorem components_eq {path : String} (named : path ≠ "") :
    components path = componentsOf (segments path) := by
  unfold components componentsOf lead?
  cases segments path with
  | nil => rfl
  | cons first rest => simp only [if_neg named]

theorem componentsOf_append {front : List Segment} (ne : front ≠ []) (back : List Segment) :
    componentsOf (front ++ back) = componentsOf front ++ back.filterMap component? := by
  cases front with
  | nil => exact absurd rfl ne
  | cons first rest => simp [componentsOf]

theorem component_of_idle {segment : Segment} (h : segment = [] ∨ segment = here) :
    component? segment = none := if_pos h

def Component.ofNamed (segment : Segment) : Component :=
  if segment = Path.up then .up else .name segment

theorem component_of_named {segment : Segment} (h : ¬(segment = [] ∨ segment = here)) :
    component? segment = some (.ofNamed segment) := by
  rw [component?, if_neg h, Component.ofNamed]
  split <;> rfl

theorem filterMap_idle {idle : List Segment} (h : ∀ s ∈ idle, s = [] ∨ s = here) :
    idle.filterMap component? = [] := by
  rw [List.filterMap_eq_nil_iff]
  intro s mem
  exact component_of_idle (h s mem)

theorem named_of_component {segment : Segment} {c : Component} (h : component? segment = some c) :
    ¬(segment = [] ∨ segment = here) := by
  intro idle
  rw [component_of_idle idle] at h
  cases h

theorem lead_of_component {segment : Segment} {c : Component} (h : component? segment = some c) :
    lead? segment = some c := by
  obtain ⟨notEmpty, notHere⟩ := not_or.1 (named_of_component h)
  rw [lead?, if_neg notEmpty, if_neg notHere, h]

/-- Segments that count for nothing may be dropped from the end, but for the first. -/
theorem componentsOf_dropIdle (parts : List Segment) :
    componentsOf (dropIdle parts).reverse = componentsOf parts.reverse := by
  obtain ⟨idle, counts, whole⟩ := exists_idle parts
  by_cases empty : parts = []
  · rw [empty, dropIdle]
  · have ne : (dropIdle parts).reverse ≠ [] := by simpa using dropIdle_ne_nil empty
    have turned : parts.reverse = (dropIdle parts).reverse ++ idle.reverse := by
      rw [← List.reverse_append, ← whole]
    rw [turned, componentsOf_append ne, filterMap_idle, List.append_nil]
    simpa using counts

theorem dropIdle_cases {parts : List Segment} (ne : parts ≠ []) :
    (∃ first, dropIdle parts = [first]) ∨
      ∃ last rest, dropIdle parts = last :: rest ∧ rest ≠ [] ∧ ¬(last = [] ∨ last = here) := by
  induction parts with
  | nil => exact absurd rfl ne
  | cons last rest ih =>
    cases rest with
    | nil => exact .inl ⟨last, rfl⟩
    | cons next rest =>
      unfold dropIdle
      by_cases idle : last = [] ∨ last = here
      · rw [if_pos idle]
        exact ih (by simp)
      · rw [if_neg idle]
        exact .inr ⟨last, next :: rest, rfl, by simp, idle⟩

theorem dropIdle_dropIdle (parts : List Segment) : dropIdle (dropIdle parts) = dropIdle parts := by
  induction parts with
  | nil => rfl
  | cons last rest ih =>
    cases rest with
    | nil => rfl
    | cons next rest =>
      by_cases idle : last = [] ∨ last = here
      · simpa [dropIdle, if_pos idle] using ih
      · simp [dropIdle, if_neg idle]

theorem components_empty : components "" = [] := by decide

theorem segments_eq_empty_iff {path : String} : segments path = [[]] ↔ path = "" := by
  constructor
  · intro h
    rw [← ofSegments_segments path, h]
    rfl
  · rintro rfl
    rfl

theorem components_ofSegments {parts : List Segment} (ne : parts ≠ []) (named : parts ≠ [[]])
    (h : ∀ s ∈ parts, '/' ∉ s) : components (ofSegments parts) = componentsOf parts := by
  have back := segments_ofSegments ne h
  have some' : ofSegments parts ≠ "" := by
    intro empty
    rw [← segments_eq_empty_iff, back] at empty
    exact named empty
  rw [components_eq some', back]

@[simp] theorem join_empty (name : String) : join "" name = name := by
  simp [join]

theorem join_ne_empty {base name : String} (h : base ≠ "") : join base name ≠ "" := by
  unfold join
  split <;> simp [h]

/-! ## What a path names and what is above it -/

def Component.name? : Component → Option Segment
  | name n => some n
  | _ => none

namespace Component

variable (segment : Segment)

theorem ofNamed_ne_root : ofNamed segment ≠ .root := by
  unfold ofNamed
  split <;> simp

theorem ofNamed_ne_here : ofNamed segment ≠ .here := by
  unfold ofNamed
  split <;> simp

theorem name_ofNamed {segment : Segment} (h : ¬(segment = [] ∨ segment = Path.here)) :
    (ofNamed segment).name? =
      if segment = [] ∨ segment = Path.here ∨ segment = Path.up then none else some segment := by
  unfold ofNamed
  by_cases isUp : segment = Path.up
  · simp [isUp, name?]
  · simp [isUp, not_or.1 h, name?]

end Component

/-- A directory as `parent?` hands it out: the empty one, the root, or segments with nothing idle
at their end. -/
inductive Above : String → List Component → Prop
  | empty : Above "" []
  | root : Above "/" [.root]
  | segments {parts : List Segment} (settled : dropIdle parts = parts) (ne : parts ≠ [])
    (notRoot : parts ≠ [[]]) (h : ∀ s ∈ parts, '/' ∉ s) :
    Above (ofSegments parts.reverse) (componentsOf parts.reverse)

theorem Above.components_eq {path : String} {list : List Component} (h : Above path list) :
    components path = list := by
  cases h with
  | empty => exact components_empty
  | root => decide
  | @segments parts settled ne notRoot h =>
    refine components_ofSegments (by simpa using ne) ?_ (by simpa using h)
    intro root
    rw [List.reverse_eq_iff] at root
    exact notRoot root

/-- A path is empty, the root, or one component below what is above it. -/
inductive View (path : String) : Prop
  | empty (components : components path = []) (unnamed : fileName? path = none)
    (top : parent? path = none)
  | root (components : components path = [.root]) (unnamed : fileName? path = none)
    (top : parent? path = none)
  | below {above : String} {list : List Component} {c : Component}
    (components : components path = list ++ [c]) (notRoot : c ≠ .root)
    (first : c = .here → list = []) (named : fileName? path = c.name?)
    (parent : parent? path = some above) (isAbove : Above above list)

theorem view_of_single {path : String} {first : Segment}
    (kept : dropIdle (segments path).reverse = [first]) : View path := by
  by_cases empty : path = ""
  · subst empty
    exact .empty components_empty (by decide) (by decide)
  have parts : components path = (lead? first).toList := by
    have whole := componentsOf_dropIdle (segments path).reverse
    rw [kept, List.reverse_reverse] at whole
    rw [components_eq empty, ← whole]
    simp [componentsOf]
  by_cases root : first = []
  · refine .root ?_ ?_ ?_
    · rw [parts, root]
      rfl
    · simp [fileName?, kept, root]
    · simp [parent?, kept, root]
  have top : parent? path = some "" := by simp [parent?, kept, root]
  by_cases point : first = here
  · refine .below (c := .here) ?_ (by simp) (fun _ => rfl) ?_ top .empty
    · rw [parts, lead?, if_neg root, if_pos point]
      rfl
    · simp [fileName?, kept, point, Component.name?]
  · have named : ¬(first = [] ∨ first = here) := not_or.2 ⟨root, point⟩
    refine .below (c := .ofNamed first) ?_ (Component.ofNamed_ne_root first) (fun _ => rfl) ?_
      top .empty
    · rw [parts, lead_of_component (component_of_named named)]
      rfl
    · rw [fileName?, kept, Component.name_ofNamed named]

theorem view_of_more {path : String} {last : Segment} {rest : List Segment}
    (kept : dropIdle (segments path).reverse = last :: rest) (ne : rest ≠ [])
    (named : ¬(last = [] ∨ last = here)) : View path := by
  have some' : path ≠ "" := by
    rintro rfl
    have single : dropIdle (segments "").reverse = [[]] := by decide
    rw [single] at kept
    exact ne (List.cons.inj kept).2.symm
  have parts : components path = componentsOf (dropIdle rest).reverse ++ [.ofNamed last] := by
    have whole := componentsOf_dropIdle (segments path).reverse
    rw [kept, List.reverse_reverse, List.reverse_cons, componentsOf_append (by simpa using ne),
      List.filterMap_cons_some (component_of_named named), List.filterMap_nil] at whole
    rw [components_eq some', ← whole, componentsOf_dropIdle]
  have file : fileName? path = (Component.ofNamed last).name? := by
    rw [fileName?, kept, Component.name_ofNamed named]
  have plain : ∀ s ∈ dropIdle rest, '/' ∉ s := by
    intro s mem
    have inside : s ∈ dropIdle (segments path).reverse := by
      rw [kept]
      exact List.mem_cons_of_mem _ (mem_of_mem_dropIdle mem)
    exact not_mem_of_mem_segments (List.mem_reverse.1 (mem_of_mem_dropIdle inside))
  have parent : parent? path =
      if dropIdle rest = [[]] then some "/" else some (ofSegments (dropIdle rest).reverse) := by
    rw [parent?, kept]
    cases rest with
    | nil => exact absurd rfl ne
    | cons next rest => rfl
  have notRoot := Component.ofNamed_ne_root last
  have notHere := Component.ofNamed_ne_here last
  by_cases root : dropIdle rest = [[]]
  · rw [root] at parts
    rw [if_pos root] at parent
    exact .below parts notRoot (absurd · notHere) file parent .root
  · rw [if_neg root] at parent
    exact .below parts notRoot (absurd · notHere) file parent
      (.segments (dropIdle_dropIdle rest) (dropIdle_ne_nil ne) root plain)

theorem view (path : String) : View path := by
  have ne : (segments path).reverse ≠ [] := by simpa using segments_ne_nil path
  rcases dropIdle_cases ne with ⟨first, kept⟩ | ⟨last, rest, kept, more, named⟩
  · exact view_of_single kept
  · exact view_of_more kept more named

theorem fileName_eq (path : String) :
    fileName? path = (components path).getLast?.bind Component.name? := by
  rcases view path with ⟨components, unnamed, -⟩ | ⟨components, unnamed, -⟩ |
    ⟨components, -, -, named, -, -⟩
  · rw [components, unnamed]
    rfl
  · rw [components, unnamed]
    rfl
  · rw [components, named, List.getLast?_concat]
    rfl

theorem fileName_eq_some {path : String} {name : Segment} :
    fileName? path = some name ↔ (components path).getLast? = some (.name name) := by
  rw [fileName_eq, Option.bind_eq_some_iff]
  constructor
  · rintro ⟨c, last, isName⟩
    cases c with
    | name n =>
      cases isName
      exact last
    | root | here | up => cases isName
  · intro last
    exact ⟨_, last, rfl⟩

/-- A path names no file if it is empty, the root or a single point, or ends with two points. -/
theorem fileName_eq_none {path : String} :
    fileName? path = none ↔ components path = [] ∨ components path = [.root] ∨
      components path = [.here] ∨ (components path).getLast? = some .up := by
  constructor
  · intro unnamed
    rcases view path with ⟨components, -, -⟩ | ⟨components, -, -⟩ |
      ⟨components, notRoot, first, named, -, -⟩
    · exact .inl components
    · exact .inr (.inl components)
    · rename_i c
      rw [unnamed] at named
      cases c with
      | root => exact absurd rfl notRoot
      | here => exact .inr (.inr (.inl (by simp [components, first rfl])))
      | up => exact .inr (.inr (.inr (by simp [components])))
      | name n => cases named
  · intro forms
    rw [fileName_eq]
    rcases forms with parts | parts | parts | parts <;> rw [parts] <;> rfl

/-- What is above a path that names a file has all its components but the last. -/
theorem parent_of_fileName {path : String} {name : Segment} (named : fileName? path = some name) :
    ∃ above list, parent? path = some above ∧ Above above list ∧
      components path = list ++ [.name name] := by
  have last := fileName_eq_some.1 named
  rcases view path with ⟨components, -, -⟩ | ⟨components, -, -⟩ |
    ⟨components, -, -, -, parent, isAbove⟩
  · simp [components] at last
  · simp [components] at last
  · simp only [components, List.getLast?_concat, Option.some.injEq] at last
    rw [last] at components
    exact ⟨_, _, parent, isAbove, components⟩

/-! ## A name joined to a base -/

theorem components_join {base : String} {segment : Segment} {c : Component}
    (plain : '/' ∉ segment) (counts : component? segment = some c) :
    components (join base (String.ofList segment)) = components base ++ [c] := by
  by_cases empty : base = ""
  · have named : segment ≠ [] := by
      rintro rfl
      cases counts
    rw [empty, components_empty, join_empty,
      components_eq (by simpa using named), segments_name plain]
    simp [componentsOf, lead_of_component counts]
  have added : ∀ front, front ≠ [] →
      componentsOf (front ++ [segment]) = componentsOf front ++ [c] := by
    intro front ne
    rw [componentsOf_append ne, List.filterMap_cons_some counts, List.filterMap_nil]
  by_cases slash : base.toList.getLast? = some '/'
  · obtain ⟨front, ne, before, after⟩ := segments_join_slash plain slash
    have dropped : componentsOf (front ++ [[]]) = componentsOf front := by
      rw [componentsOf_append ne, filterMap_idle (by simp), List.append_nil]
    rw [components_eq empty, before, dropped, components_eq (join_ne_empty empty), after,
      added front ne]
  · rw [components_eq empty, components_eq (join_ne_empty empty),
      segments_join_open plain empty slash, added _ (segments_ne_nil base)]

/-- Above a name that is joined to a directory is that directory, as it was written. -/
theorem parent_join {above : String} {list : List Component} {name : Segment}
    (isAbove : Above above list) (plain : '/' ∉ name) (named : ¬(name = [] ∨ name = here)) :
    parent? (join above (String.ofList name)) = some above := by
  have someName : name ≠ [] := fun empty => named (.inl empty)
  cases isAbove with
  | empty =>
    rw [join_empty, parent?, segments_name plain]
    simp [dropIdle, someName]
  | root =>
    have slash : "/".toList.getLast? = some '/' := rfl
    obtain ⟨front, -, before, after⟩ := segments_join_slash plain slash
    have whole : [[]] ++ [[]] = front ++ [[]] := before
    obtain ⟨rfl, -⟩ := List.append_inj' whole rfl
    rw [parent?, after]
    simp [dropIdle, named]
  | @segments parts settled ne notRoot h =>
    have back : segments (ofSegments parts.reverse) = parts.reverse :=
      segments_ofSegments (by simpa using ne) (by simpa using h)
    have notOpen : (segments (ofSegments parts.reverse)).getLast? ≠ some [] := by
      rw [back, List.getLast?_reverse, ← settled]
      intro head
      exact notRoot (settled ▸ head_dropIdle head)
    rw [parent?, segments_join plain notOpen, back]
    cases parts with
    | nil => exact absurd rfl ne
    | cons next rest => simp [dropIdle, named, settled, notRoot]

end DiveTable.Path
