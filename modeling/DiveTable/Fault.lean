import DiveTable.Json.Fault

/-! What can go wrong between a dump and its table. Faults of the stream, which arise once a dump
has been opened, are apart from those of the setup. -/
namespace DiveTable

inductive Metadata where
  | dateTime
  | maxDepth
  | diveTime
  deriving DecidableEq, Repr

def Metadata.name : Metadata → String
  | dateTime => "dive date/time"
  | maxDepth => "max depth"
  | diveTime => "dive time"

inductive Fault where
  | io (detail : String)
  | json (fault : Json.Fault)
  | emptyInput
  | unknownFormat (detail : String)
  | unsupportedDevice (vendor product : String)
  | unsupportedVersion (text : String)
  | unavailable (metadata : Metadata)
  | invalidSample (index : Nat) (reason : String)
  | timeOrder (index : Nat) (previous current : UInt32)
  | notWritten (detail : String)
  deriving DecidableEq, Repr

namespace Fault

def isMidStream : Fault → Bool
  | invalidSample _ _ => true
  | timeOrder _ _ _ => true
  | _ => false

def message : Fault → String
  | io detail => "I/O error: " ++ detail
  | json fault => "JSON error: " ++ fault.message
  | emptyInput => "Input is empty"
  | unknownFormat detail => "Unknown data format: " ++ detail
  | unsupportedDevice vendor product =>
    "No descriptor found for device: " ++ vendor ++ " " ++ product
  | unsupportedVersion text => "Unsupported format version: " ++ text
  | unavailable metadata => "Field not available: " ++ metadata.name
  | invalidSample index reason => "Invalid sample #" ++ index.repr ++ ": " ++ reason
  | timeOrder index previous current =>
    "Sample #" ++ index.repr ++ " goes back in time (" ++ current.toNat.repr ++ " ms after " ++
      previous.toNat.repr ++ " ms)"
  | notWritten detail => "Export error: " ++ detail

/-- The fault behind a fault, which its message repeats. -/
def cause? : Fault → Option String
  | io detail => some detail
  | json fault => some fault.message
  | _ => none

end Fault

end DiveTable
