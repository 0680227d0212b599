import DiveTable.CommandLine.Program

/-! The program on the files of the system. -/
namespace DiveTable.CommandLine

/-- The number of a system error, which some operations report with a minus sign. -/
def errorNumber (code : UInt32) : UInt32 := if code < 0x80000000 then code else 0 - code

def osFault : IO.Error → OsFault
  | .noFileOrDirectory _ _ _ => .notFound
  | .alreadyExists _ _ _ => .alreadyExists
  | .inappropriateType _ code _ => if errorNumber code = 20 then .notDirectory else .isDirectory
  | .resourceExhausted _ code _ => if errorNumber code = 28 then .noSpace else .outOfMemory
  | .invalidArgument _ code text =>
    if errorNumber code = 36 then .nameTooLong
    else .other (text ++ " (os error " ++ (errorNumber code).toNat.repr ++ ")")
  | .permissionDenied _ _ _ => .other "Permission denied (os error 13)"
  | error => .other (toString error)

def attempt {α : Type} (action : IO α) : IO (Except OsFault α) := do
  try return .ok (← action) catch error => return .error (osFault error)

def systemFiles : Storage IO where
  read path := attempt do return (← IO.FS.readBinFile path).toList
  canonical path := do
    try return some (← IO.FS.realPath path).toString catch _ => return none
  isPresent path := do
    try
      discard (IO.FS.realPath path)
      return true
    catch _ => return false
  isDirectory path := do
    try (← IO.FS.realPath path).isDir catch _ => return false
  makeDirectory path := attempt (IO.FS.createDir path)
  create path := attempt (IO.FS.writeFile path "")
  write path text := attempt do
    let handle ← IO.FS.Handle.mk path .write
    handle.putStr text
    handle.flush

end DiveTable.CommandLine

open DiveTable.CommandLine in
def main (arguments : List String) : IO UInt32 := do
  let outcome ← run systemFiles arguments
  for line in outcome.lines do
    match line with
    | .out text => IO.println text
    | .err text => IO.eprintln text
  return outcome.exit.toUInt32
