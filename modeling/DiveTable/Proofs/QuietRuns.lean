import DiveTable.Proofs.DebugOption
import DiveTable.Proofs.DebugOutput
import DiveTable.Proofs.ProgramOutcome

/-! # Runs with and without debug output

Two runs that differ in the debug option alone have the same exit, errors and tree, and what the
quiet one says is what the loud one says with some of its lines left out. -/
namespace DiveTable

open DiveTable.Tree (storage)

namespace CommandLine

/-! ## Lines that are left out -/

def Line.out? : Line → Option String
  | .out text => some text
  | .err _ => none

def Line.err? : Line → Option String
  | .out _ => none
  | .err text => some text

def Outcome.printed (outcome : Outcome) : List String := outcome.lines.filterMap Line.out?

theorem Outcome.stdout_eq (outcome : Outcome) :
    outcome.stdout = String.join (outcome.printed.map fun text => text ++ "\n") := rfl

inductive Louder : List Line → List Line → Prop
  | nil : Louder [] []
  | keep (line : Line) {quiet loud : List Line} (h : Louder quiet loud) :
    Louder (line :: quiet) (line :: loud)
  | more (text : String) {quiet loud : List Line} (h : Louder quiet loud) :
    Louder quiet (.out text :: loud)

namespace Louder

theorem refl (lines : List Line) : Louder lines lines := by
  induction lines with
  | nil => exact .nil
  | cons line rest ih => exact .keep line ih

theorem append {a b c d : List Line} (h : Louder a b) (k : Louder c d) :
    Louder (a ++ c) (b ++ d) := by
  induction h with
  | nil => exact k
  | keep line _ ih => exact .keep line ih
  | more text _ ih => exact .more text ih

theorem outs (texts : List String) : Louder [] (texts.map .out) := by
  induction texts with
  | nil => exact .nil
  | cons text rest ih => exact .more text ih

theorem errors_eq {quiet loud : List Line} (h : Louder quiet loud) :
    loud.filterMap Line.err? = quiet.filterMap Line.err? := by
  induction h with
  | nil => rfl
  | keep line _ ih => rw [List.filterMap_cons, List.filterMap_cons, ih]
  | more text _ ih => exact ih

theorem printed_sublist {quiet loud : List Line} (h : Louder quiet loud) :
    (quiet.filterMap Line.out?).Sublist (loud.filterMap Line.out?) := by
  induction h with
  | nil => exact .slnil
  | keep line _ ih =>
    cases line with
    | out text => exact ih.cons_cons text
    | err text => exact ih
  | more text _ ih => exact ih.cons text

end Louder

/-! ## Two runs -/

/-- Two runs with the same exit, the louder of which prints more in between. -/
structure SameButLouder (quiet loud : Outcome × Tree) : Prop where
  exit : loud.1.exit = quiet.1.exit
  tree : loud.2 = quiet.2
  lines : Louder quiet.1.lines loud.1.lines

theorem Louder.after {quiet loud : List Line} (h : Louder quiet loud) (outcome : Outcome)
    (tree : Tree) : SameButLouder (outcome.after quiet, tree) (outcome.after loud, tree) :=
  ⟨rfl, rfl, h.append (.refl outcome.lines)⟩

end CommandLine

theorem openDiveFile_silent (tree : Tree) (path : String) :
    ∃ printed outcome, openDiveFile storage path true tree = (⟨printed, outcome⟩, tree) ∧
      openDiveFile storage path false tree = (⟨[], outcome⟩, tree) := by
  cases read : tree.read path with
  | error fault =>
    rw [openDiveFile_of_error read, openDiveFile_of_error read]
    exact ⟨[], _, rfl, rfl⟩
  | ok bytes =>
    by_cases empty : bytes = []
    · subst empty
      rw [openDiveFile_of_empty read, openDiveFile_of_empty read]
      exact ⟨_, _, rfl, rfl⟩
    · rw [openDiveFile_of_bytes read empty, openDiveFile_of_bytes read empty, Dump.read_silent]
      exact ⟨_, _, rfl, rfl⟩

namespace Tree

theorem reported_silent (path : String) (table : Trace Fault (Summary × Sink)) :
    reported path table.silent = (reported path table).silent := by
  rw [reported, reported, Trace.silent_bind, Trace.silent_mapError]
  rfl

theorem writeTable_silent (tree : Tree) (path : String) (items : List (Except Fault Event)) :
    writeTable storage path items false tree =
      ((writeTable storage path items true tree).1.silent,
        (writeTable storage path items true tree).2) := by
  rw [writeTable_storage, writeTable_storage]
  cases tree.write path (tableText (Accumulator.rows (Items.events items))) with
  | ok written =>
    dsimp only
    rw [convert_silent, reported_silent]
  | error fault =>
    dsimp only
    rw [convert_silent, reported_silent]

/-- An export does the same to the tree, and ends alike, whether it prints or not. -/
theorem exportTo_silent (tree : Tree) (items : List (Except Fault Event)) (input : String)
    (outputDir : Option String) :
    exportTo storage items input outputDir false tree =
      ((exportTo storage items input outputDir true tree).1.silent,
        (exportTo storage items input outputDir true tree).2) := by
  rw [exportTo_storage, exportTo_storage]
  dsimp only
  split
  · rfl
  · split
    · rfl
    · split
      · rfl
      · exact writeTable_silent _ _ items

end Tree

namespace CommandLine

theorem louder_dumpLines (dump : Dump) : Louder (dumpLines dump false) (dumpLines dump true) := by
  rw [dumpLines_eq, dumpLines_eq]
  exact .more _ (.refl _)

theorem louder_startLines (input : String) (options : Options) :
    Louder [] (startLines input { options with debug := true }) := by
  unfold startLines
  dsimp only
  rw [if_pos rfl]
  exact .more _ (.more _ .nil)

theorem convertInput_louder (tree : Tree) (input : String) {options : Options}
    (off : options.debug = false) :
    SameButLouder (convertInput storage input options tree)
      (convertInput storage input { options with debug := true } tree) := by
  -- whether the input holds a dump or not, the lines agree part by part
  obtain ⟨printed, outcome, loudly, quietly⟩ := openDiveFile_silent tree input
  rw [← off] at quietly
  have loudly' : openDiveFile storage input { options with debug := true : Options }.debug tree =
    (⟨printed, outcome⟩, tree) := loudly
  have start : Louder (startLines input options)
      (startLines input { options with debug := true }) := by
    rw [startLines, off]
    exact louder_startLines input options
  have front := start.append (Louder.outs printed)
  cases outcome with
  | error failure =>
    rw [convertInput_of_refused quietly, convertInput_of_refused loudly']
    exact front.after _ _
  | ok dump =>
    rw [convertInput_of_opened quietly, convertInput_of_opened loudly']
    dsimp only
    rw [off, Tree.exportTo_silent, Outcome.after_after, Outcome.after_after]
    have opened := Louder.keep (.out ("Successfully created parser for " ++ input ++ ".\n"))
      (louder_dumpLines dump)
    exact ((front.append opened).append (Louder.outs _)).after _ _

/-- Debug output interferes with nothing: opening a dump and writing a table give the same without
it, whatever the sink, and a run of the program without it has the same exit, errors and tree as the
run with the option in front, and prints the same but for some texts. With it, a table that is
written is told by the events that are left out, by the fault of the stream and by the counts. -/
theorem debug_output_is_apart :
    (∀ bytes, (Dump.read false bytes).printed = [] ∧
      (Dump.read false bytes).outcome = (Dump.read true bytes).outcome) ∧
    (∀ items sink, (convertInto false items sink).printed = [] ∧
      (convertInto false items sink).outcome = (convertInto true items sink).outcome ∧
      (convert false items sink).printed = [] ∧
      (convert false items sink).outcome = (convert true items sink).outcome) ∧
    (∀ items sink summary behind, (convert true items sink).outcome = .ok (summary, behind) →
      (convert true items sink).printed =
        ((Items.events items).filter Event.isOther).map (fun event =>
          "Ignoring sample of kind '" ++ event.kind ++ "'") ++
        ((Items.fault? items).map fun fault => "Sample stream stopped after " ++
          summary.eventsSeen.repr ++ " events: " ++ fault.message).toList ++
        ["Exported " ++ summary.rowsWritten.repr ++ " data rows from " ++
          summary.eventsSeen.repr ++ " events (" ++ summary.ignoredEvents.repr ++ " ignored)"]) ∧
    ∀ arguments options input tree, Request.ofArguments arguments = .convert options →
      options.input = some input → ("--debug" ∉ arguments → options.debug = false) ∧
        (options.debug = false →
          let quiet := run storage arguments tree
          let loud := run storage ("--debug" :: arguments) tree
          loud.1.exit = quiet.1.exit ∧ loud.1.stderr = quiet.1.stderr ∧ loud.2 = quiet.2 ∧
            quiet.1.stdout = String.join (quiet.1.printed.map fun text => text ++ "\n") ∧
            loud.1.stdout = String.join (loud.1.printed.map fun text => text ++ "\n") ∧
            quiet.1.printed.Sublist loud.1.printed) := by
  refine ⟨?_, ?_, ?_, ?_⟩
  · intro bytes
    rw [Dump.read_silent]
    exact ⟨rfl, rfl⟩
  · intro items sink
    rw [convertInto_silent, convert_silent]
    exact ⟨rfl, rfl, rfl, rfl⟩
  · intro items sink summary behind written
    exact printed_convert written
  · intro arguments options input tree asked given
    obtain ⟨absent, prepended⟩ := asked_with_debug asked
    refine ⟨absent, fun off => ?_⟩
    have loudly : ({ options with debug := true } : Options).input = some input := given
    rw [run_of_input asked given, run_of_input (prepended off) loudly]
    obtain ⟨exit, left, lines⟩ := convertInput_louder tree input off
    refine ⟨exit, ?_, left, Outcome.stdout_eq _, Outcome.stdout_eq _, lines.printed_sublist⟩
    exact congrArg (fun texts => String.join (texts.map fun text => text ++ "\n")) lines.errors_eq

theorem debug_output_is_apart_divesAlone :
    (convert true [.ok (.other "pulse"), .error (.invalidSample 1 "no kind")] .empty).printed =
      ["Ignoring sample of kind 'pulse'",
        "Sample stream stopped after 1 events: " ++ (Fault.invalidSample 1 "no kind").message,
        "Exported 0 data rows from 1 events (1 ignored)"] ∧
    Request.ofArguments ["a.dsf"] = .convert ⟨false, none, some "a.dsf"⟩ ∧
      (run storage ["--debug", "a.dsf"] divesAlone).1.exit =
        (run storage ["a.dsf"] divesAlone).1.exit ∧
      (run storage ["--debug", "a.dsf"] divesAlone).1.stderr =
        (run storage ["a.dsf"] divesAlone).1.stderr ∧
      (run storage ["--debug", "a.dsf"] divesAlone).2 = (run storage ["a.dsf"] divesAlone).2 ∧
      (run storage ["a.dsf"] divesAlone).1.printed.Sublist
        (run storage ["--debug", "a.dsf"] divesAlone).1.printed := by
  obtain ⟨-, -, told, runs⟩ := debug_output_is_apart
  have asked : Request.ofArguments ["a.dsf"] = .convert ⟨false, none, some "a.dsf"⟩ := by
    decide +kernel
  constructor
  · exact told _ .empty _ _ (convert_memory true _ "")
  · obtain ⟨absent, same⟩ := runs ["a.dsf"] _ "a.dsf" divesAlone asked rfl
    obtain ⟨exit, errors, left, -, -, fewer⟩ := same (absent (by decide))
    exact ⟨asked, exit, errors, left, fewer⟩

end CommandLine

end DiveTable
