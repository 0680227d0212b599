import DiveTable.Dump
import DiveTable.Files.Path
import DiveTable.Files.Storage
import DiveTable.Table.Conversion

/-! Opening a dump in a file, and writing its table to a file. The table never goes to a path
that already leads to the input. -/
namespace DiveTable

/-- What failed, and behind it the causes, the nearest first. -/
structure Failure where
  chain : List String
  deriving DecidableEq, Repr

namespace Failure

def message (failure : Failure) : String := ": ".intercalate failure.chain

def ofFault (context : String) (fault : Fault) : Failure :=
  ⟨context :: fault.message :: fault.cause?.toList⟩

def ofOsFault (context : String) (fault : OsFault) : Failure := ⟨[context, fault.text]⟩

end Failure

structure Report where
  path : String
  summary : Summary
  deriving DecidableEq, Repr

variable {m : Type → Type} [Monad m]

def sizeRemarks (size : Nat) : List String :=
  ["=== READING DIVE LOG ===",
    "File size: " ++ size.repr ++ " bytes (" ++
      (Binary64.ofNat size / Binary64.ofNat 1024).fixedText 2 ++ " KB)"]

def readDiveFile (files : Storage m) (path : String) (debug : Bool) :
    m (Trace Failure (List UInt8)) := do
  match ← files.read path with
  | .error fault =>
    return .fail (.ofOsFault ("Cannot open file " ++ quoted path) fault)
  | .ok bytes =>
    return do
      Trace.say debug (sizeRemarks bytes.length)
      if bytes = [] then Trace.fail ⟨["File " ++ quoted path ++ " is empty"]⟩
      return bytes

def openDiveFile (files : Storage m) (path : String) (debug : Bool) :
    m (Trace Failure Dump) := do
  let contents ← readDiveFile files path debug
  return do
    let bytes ← contents
    (Dump.read debug bytes).mapError (.ofFault ("Failed to create parser for " ++ quoted path))

def prepareParent (files : Storage m) (path : String) : m (Option Failure) := do
  match Path.parent? path with
  | none => return none
  | some parent =>
    if parent = "" then return none
    else if ← files.isPresent parent then return none
    else match ← files.makeAll (Path.ancestors parent) with
      | .ok () => return none
      | .error fault =>
        return some (.ofOsFault ("Failed to create output directory: " ++ quoted parent) fault)

def writeTable (files : Storage m) (path : String) (items : List (Except Fault Event))
    (debug : Bool) : m (Trace Failure Report) := do
  let table := convert debug items .empty
  let refused ← match table.outcome with
    | .error _ => pure none
    | .ok (_, sink) =>
      match ← files.write path sink.text with
      | .ok () => pure none
      | .error fault => pure (some fault.text)
  let table := match refused with
    | none => table
    | some reason => convert debug items (.refusing reason)
  return do
    let (summary, _) ← table.mapError (.ofFault ("Failed to write CSV file: " ++ quoted path))
    return ⟨path, summary⟩

def exportTo (files : Storage m) (items : List (Except Fault Event)) (input : String)
    (outputDir : Option String) (debug : Bool) : m (Trace Failure Report) := do
  let path := Path.exportPath input outputDir
  let notOpened := "Could not open output file " ++ quoted path
  if ← files.isSameFile path input then
    return .fail ⟨[notOpened ++ ": it is the input file"]⟩
  else match ← prepareParent files path with
    | some failure => return .fail failure
    | none =>
      match ← files.create path with
      | .error fault => return .fail (.ofOsFault notOpened fault)
      | .ok () => writeTable files path items debug

end DiveTable
