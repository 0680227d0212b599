import DiveTable.Number.Binary64
import DiveTable.Text.ControlSequence

/-! The arguments of the command line. They are taken one after the other; a value is settled when
the argument behind it is taken, so of two faults the one found first is reported.

An unknown option is answered with the one most like it, if any is. That is told by Jaro's measure:
the characters that two words share within half the longer one, and how many of those stand in
another order. It is computed in binary64 numbers, each step rounded, and measures that differ by a
rounding differ. -/
namespace DiveTable.Similarity

def reach (a b : List Char) : Nat := max a.length b.length / 2 - 1

def partner? (b : List Char) (reach i : Nat) (c : Char) (taken : List Nat) : Option Nat :=
  (List.range b.length).find? fun j =>
    i ≤ j + reach && j ≤ i + reach && b[j]? == some c && !taken.contains j

/-- The shared characters, by their positions in the second word and in the order of the first. -/
def shared (b : List Char) (reach : Nat) : Nat → List Char → List Nat → List Nat
  | _, [], taken => taken.reverse
  | i, c :: rest, taken =>
    match partner? b reach i c taken with
    | some j => shared b reach (i + 1) rest (j :: taken)
    | none => shared b reach (i + 1) rest taken

/-- Half the count of shared characters that stand elsewhere in the order of the second word. -/
def transpositions (b : List Char) (positions : List Nat) : Nat :=
  let ordered := positions.mergeSort
  ((positions.zip ordered).countP fun pair => b[pair.1]? != b[pair.2]?) / 2

def jaro (first second : String) : Binary64 :=
  let a := first.toList
  let b := second.toList
  let positions := shared b (reach a b) 0 a []
  let common := positions.length
  let ordered := common - transpositions b positions
  let share (n total : Nat) : Binary64 := .ofNat n / .ofNat total
  if a = [] ∧ b = [] then .ofNat 1
  else if common = 0 then .zero
  else
    (share common a.length + share common b.length + share ordered common) / .ofNat 3

def threshold : Binary64 := .ofNat 7 / .ofNat 10

/-- The word most like the given one, if any is like it; of two equally alike, the later. -/
def closest? (word : String) (candidates : List String) : Option String :=
  let better (best : Option (Binary64 × String)) (candidate : String) :
      Option (Binary64 × String) :=
    let score := jaro word candidate
    if score.code ≤ threshold.code then best
    else match best with
      | some (most, name) =>
        if score.code < most.code then some (most, name) else some (score, candidate)
      | none => some (score, candidate)
  (candidates.foldl better none).map (·.2)

end DiveTable.Similarity

namespace DiveTable.CommandLine

open ControlSequence (plainText)

inductive Argument where
  | input
  | debug
  | outputDir
  | help
  | version
  deriving DecidableEq, Repr

namespace Argument

def options : List Argument := [debug, outputDir, help, version]

def longName : Argument → String
  | input => "INPUT"
  | debug => "debug"
  | outputDir => "output-dir"
  | help => "help"
  | version => "version"

def ofLongName? (name : String) : Option Argument := options.find? fun o => o.longName == name

def ofShortName? : Char → Option Argument
  | 'h' => some help
  | 'V' => some version
  | _ => none

def display : Argument → String
  | input => "<INPUT>"
  | outputDir => "--output-dir <DIR>"
  | option => "--" ++ option.longName

end Argument

structure Options where
  debug : Bool
  outputDir : Option String
  input : Option String
  deriving DecidableEq, Repr

inductive UsageFault where
  | unexpected (argument : String) (canEscape : Bool)
  | unknownOption (name : String) (similar : Option String) (used : List Argument)
  | unexpectedValue (value : String) (option : Argument) (used : List Argument)
  | missingValue (option : Argument)
  | repeated (option : Argument)
  deriving DecidableEq, Repr

inductive Request where
  | convert (options : Options)
  | help
  | version
  | fault (fault : UsageFault)
  deriving DecidableEq, Repr

inductive Pending where
  | input (value : String)
  | outputDir (value : Option String)
  deriving DecidableEq, Repr

structure State where
  options : Options
  /-- The arguments settled, in order. -/
  used : List Argument
  pending : Option Pending
  inputTaken : Bool
  deriving DecidableEq, Repr

namespace State

def start : State := ⟨⟨false, none, none⟩, [], none, false⟩

def use (state : State) (argument : Argument) : State :=
  { state with used := state.used ++ [argument], pending := none }

def settle (state : State) : Except Request State :=
  match state.pending with
  | none => .ok state
  | some (.input value) =>
    .ok { state.use .input with options := { state.options with input := some value } }
  | some (.outputDir none) => .error (.fault (.missingValue .outputDir))
  | some (.outputDir (some dir)) =>
    if .outputDir ∈ state.used then .error (.fault (.repeated .outputDir))
    else .ok { state.use .outputDir with options := { state.options with outputDir := some dir } }

/-- The arguments used, with what is pending if it can be settled. A directory given again counts
neither time. -/
def usedSoFar (state : State) : List Argument :=
  match state.settle with
  | .ok settled => settled.used
  | .error (.fault (.repeated argument)) => state.used.erase argument
  | .error _ => state.used

def takeFlag (state : State) (flag : Argument) : Except Request State :=
  match state.settle with
  | .error request => .error request
  | .ok state =>
    match flag with
    | .help => .error .help
    | .version => .error .version
    | _ =>
      if flag ∈ state.used then .error (.fault (.repeated flag))
      else .ok { state.use flag with options := { state.options with debug := true } }

def withOption (used : List Argument) (option : Argument) : List Argument :=
  if option ∈ used then used else used ++ [option]

def takeLong (state : State) (name : String) (value : Option String) : Except Request State :=
  match Argument.ofLongName? name with
  | none =>
    let similar := Similarity.closest? name (Argument.options.map Argument.longName)
    let used := match similar.bind Argument.ofLongName? with
      | some option => withOption state.usedSoFar option
      | none => state.usedSoFar
    .error (.fault (.unknownOption name similar used))
  | some .outputDir =>
    match state.settle with
    | .error request => .error request
    | .ok state =>
      let state := { state with pending := some (.outputDir value) }
      if value.isSome then state.settle else .ok state
  | some flag =>
    match value with
    | some value => .error (.fault (.unexpectedValue value flag (withOption state.used flag)))
    | none => state.takeFlag flag

def takeShort (state : State) : List Char → Except Request State
  | [] => .ok state
  | letter :: rest =>
    match Argument.ofShortName? letter with
    | none => .error (.fault (.unexpected ("-" ++ String.singleton letter) true))
    | some flag =>
      match state.takeFlag flag with
      | .error request => .error request
      | .ok state => takeShort state rest

def takeInput (state : State) (value : String) : Except Request State :=
  if state.inputTaken then .error (.fault (.unexpected value false))
  else match state.settle with
    | .error request => .error request
    | .ok state => .ok { state with pending := some (.input value), inputTaken := true }

def take (state : State) (argument : String) : Except Request State :=
  match argument.toList with
  | '-' :: '-' :: rest =>
    let name := String.ofList (rest.takeWhile (· != '='))
    let value := (rest.dropWhile (· != '=')).tail?
    state.takeLong name (value.map String.ofList)
  | '-' :: letter :: rest => state.takeShort (letter :: rest)
  | _ =>
    match state.pending with
    | some (.outputDir none) =>
      .ok { state with pending := some (.outputDir (some argument)) }
    | _ => state.takeInput argument

/-- All arguments; behind a double hyphen every one is a value. -/
def takeAll (state : State) (trailing : Bool) : List String → Except Request State
  | [] => state.settle
  | argument :: rest =>
    if trailing then
      match state.takeInput argument with
      | .error request => .error request
      | .ok state => takeAll state true rest
    else if argument = "--" then takeAll state true rest
    else match state.take argument with
      | .error request => .error request
      | .ok state => takeAll state false rest

end State

def Request.ofArguments (arguments : List String) : Request :=
  match State.start.takeAll false arguments with
  | .ok state => .convert state.options
  | .error request => request

def usageLine (used : List Argument) : String :=
  if used = [] then "Usage: dsf2csv [OPTIONS] [INPUT]"
  else
    let options := (used.filter (· ≠ .input)).map Argument.display
    let input := if .input ∈ used then Argument.display .input else "[INPUT]"
    "Usage: dsf2csv " ++ " ".intercalate (options ++ [input])

def escapeTip (argument : String) : List String :=
  let argument := plainText argument
  ["", "  tip: to pass '" ++ argument ++ "' as a value, use '-- " ++ argument ++ "'"]

namespace UsageFault

def summary : UsageFault → String
  | unexpected argument _ => "unexpected argument '" ++ plainText argument ++ "' found"
  | unknownOption name _ _ => "unexpected argument '--" ++ plainText name ++ "' found"
  | unexpectedValue value option _ =>
    "unexpected value '" ++ plainText value ++ "' for '" ++ option.display ++
      "' found; no more were expected"
  | missingValue option =>
    "a value is required for '" ++ option.display ++ "' but none was supplied"
  | repeated option => "the argument '" ++ option.display ++ "' cannot be used multiple times"

def tips : UsageFault → List String
  | unexpected argument canEscape => if canEscape then escapeTip argument else []
  | unknownOption _ (some similar) _ =>
    ["", "  tip: a similar argument exists: '--" ++ similar ++ "'"]
  | unknownOption name none _ => escapeTip ("--" ++ name)
  | _ => []

def usage : UsageFault → List String
  | unexpected _ _ => ["", usageLine []]
  | unknownOption _ _ used => ["", usageLine used]
  | unexpectedValue _ _ used => ["", usageLine used]
  | missingValue _ => []
  | repeated _ => ["", usageLine []]

def lines (fault : UsageFault) : List String :=
  ("error: " ++ fault.summary) :: fault.tips ++ fault.usage ++
    ["", "For more information, try '--help'."]

end UsageFault

end DiveTable.CommandLine
