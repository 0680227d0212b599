/-! What a conversion needs of a file system. -/
namespace DiveTable

inductive OsFault where
  | notFound
  | alreadyExists
  | notDirectory
  | isDirectory
  | noSpace
  | outOfMemory
  | nameTooLong
  | nulInPath
  | other (text : String)
  deriving DecidableEq, Repr

def OsFault.text : OsFault → String
  | notFound => "No such file or directory (os error 2)"
  | alreadyExists => "File exists (os error 17)"
  | notDirectory => "Not a directory (os error 20)"
  | isDirectory => "Is a directory (os error 21)"
  | noSpace => "No space left on device (os error 28)"
  | outOfMemory => "Cannot allocate memory (os error 12)"
  | nameTooLong => "File name too long (os error 36)"
  | nulInPath => "file name contained an unexpected NUL byte"
  | other text => text

structure Storage (m : Type → Type) where
  /-- The bytes of a file. -/
  read : String → m (Except OsFault (List UInt8))
  /-- The one absolute path of what exists under a path. -/
  canonical : String → m (Option String)
  isPresent : String → m Bool
  isDirectory : String → m Bool
  makeDirectory : String → m (Except OsFault Unit)
  /-- Makes a file empty, or makes an empty file. -/
  create : String → m (Except OsFault Unit)
  /-- Writes the text of a file that is empty. -/
  write : String → String → m (Except OsFault Unit)

namespace Storage

variable {m : Type → Type} [Monad m]

def isSameFile (files : Storage m) (a b : String) : m Bool := do
  match ← files.canonical a, ← files.canonical b with
  | some a, some b => return a = b
  | _, _ => return false

/-- Makes the first of the directories, for lack of a parent after the others. What exists as a
directory is no fault. -/
def makeAll (files : Storage m) : List String → m (Except OsFault Unit)
  | [] => return .ok ()
  | path :: above => do
    match ← files.makeDirectory path with
    | .ok () => return .ok ()
    | .error .notFound =>
      match ← makeAll files above with
      | .error fault => return .error fault
      | .ok () =>
        match ← files.makeDirectory path with
        | .ok () => return .ok ()
        | .error fault => existing path fault
    | .error fault => existing path fault
where
  existing (path : String) (fault : OsFault) : m (Except OsFault Unit) := do
    if ← files.isDirectory path then return .ok () else return .error fault

end Storage

end DiveTable
