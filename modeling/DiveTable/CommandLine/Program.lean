import DiveTable.CommandLine.Arguments
import DiveTable.Export

/-! The program: it converts one dump, says on the way what it found, and exits with zero only if
the whole dump was converted. -/
namespace DiveTable.CommandLine

inductive Line where
  | out (text : String)
  | err (text : String)
  deriving DecidableEq, Repr

structure Outcome where
  exit : UInt8
  lines : List Line
  deriving DecidableEq, Repr

namespace Outcome

def channel (pick : Line → Option String) (outcome : Outcome) : String :=
  String.join ((outcome.lines.filterMap pick).map fun text => text ++ "\n")

def stdout : Outcome → String := channel fun
  | .out text => some text
  | .err _ => none

def stderr : Outcome → String := channel fun
  | .out _ => none
  | .err text => some text

end Outcome

def helpLines : List String := [
  "Divesoft dive log to CSV converter",
  "",
  "Usage: dsf2csv [OPTIONS] [INPUT]",
  "",
  "Arguments:",
  "  [INPUT]  Dive log file to convert",
  "",
  "Options:",
  "      --debug             Enable debug output and detailed decoding information",
  "      --output-dir <DIR>  Directory for the CSV file (default: same as input file)",
  "  -h, --help              Print help",
  "  -V, --version           Print version",
  "",
  "Reads a single dive log and writes a .csv file with the same name " ++
    "(e.g., my_dive.dsf -> my_dive.csv)."]

def versionLine : String := "dsf2csv 0.3.0"

def optionsText (outputDir : Option String) : String :=
  let dir := match outputDir with
    | some dir => "Some(" ++ quoted dir ++ ")"
    | none => "None"
  "Export options: ExportOptions \x7b output_dir: " ++ dir ++ " \x7d"

def metadataLine {α : Type} (label : String) (warning : String) (text : α → String) :
    Except Fault α → Line
  | .ok value => .out (label ++ ": " ++ text value)
  | .error fault => .err ("Warning: " ++ warning ++ " unavailable: " ++ fault.message)

def dumpLines (dump : Dump) (debug : Bool) : List Line :=
  (if debug then [.out ("Device: " ++ dump.device.text)] else []) ++
    [metadataLine "Dive Date/Time" "Dive date/time" DateTime.text dump.dateTime,
      metadataLine "Max Depth" "Max depth" (fun x => x.fixedText 2 ++ " m") dump.maxDepth,
      metadataLine "Dive Time" "Dive time" (fun s => (s.toNat / 60).repr ++ " min") dump.diveTime]

def reportOutcome (report : Report) : Outcome :=
  let created := Line.out ("\nCSV file created: " ++ report.path)
  match report.summary.fault with
  | some fault =>
    ⟨1, [created, .err ("Error during sample processing: " ++ fault.message),
      .err ("Warning: Output is truncated after " ++ report.summary.rowsWritten.repr ++
        " rows: " ++ report.path)]⟩
  | none =>
    ⟨0, [created, .out ("Sample data written successfully (" ++
      report.summary.rowsWritten.repr ++ " rows).")]⟩

def Outcome.after (lines : List Line) (outcome : Outcome) : Outcome :=
  { outcome with lines := lines ++ outcome.lines }

def failed (failure : Failure) : Outcome := ⟨1, [.err ("Error: " ++ failure.message)]⟩

variable {m : Type → Type} [Monad m]

def exportDump (files : Storage m) (dump : Dump) (input : String) (options : Options) :
    m Outcome := do
  let report ← exportTo files dump.items input options.outputDir options.debug
  let outcome := match report.outcome with
    | .error failure => failed failure
    | .ok report => reportOutcome report
  return outcome.after (report.printed.map .out)

def convertInput (files : Storage m) (input : String) (options : Options) : m Outcome := do
  let start : List Line :=
    if options.debug then
      [.out ("Input file: " ++ quoted input), .out (optionsText options.outputDir)]
    else []
  let dump ← openDiveFile files input options.debug
  let start := start ++ dump.printed.map .out
  match dump.outcome with
  | .error failure => return (failed failure).after start
  | .ok dump =>
    let opened := Line.out ("Successfully created parser for " ++ input ++ ".\n")
    let outcome ← exportDump files dump input options
    return outcome.after (start ++ opened :: dumpLines dump options.debug)

/-- Does what the arguments ask for. Without an input the help is shown, and that is a failure. -/
def run (files : Storage m) (arguments : List String) : m Outcome :=
  match Request.ofArguments arguments with
  | .help => return ⟨0, helpLines.map .out⟩
  | .version => return ⟨0, [.out versionLine]⟩
  | .fault fault => return ⟨2, fault.lines.map .err⟩
  | .convert options =>
    match options.input with
    | none => return ⟨1, (helpLines ++ [""]).map .out⟩
    | some input => convertInput files input options

end DiveTable.CommandLine
