import DiveTable.Text.Split

/-! Version numbers of the form `MAJOR.MINOR.PATCH`, optionally with a pre-release behind a
hyphen and a build behind a plus sign. Each version has one written form. White space around it is
no part of it. -/
namespace DiveTable

/-- The characters of the Unicode property `White_Space`. -/
def isBlank (c : Char) : Bool :=
  let n := c.toNat
  (0x09 ≤ n && n ≤ 0x0D) || n == 0x20 || n == 0x85 || n == 0xA0 || n == 0x1680 ||
    (0x2000 ≤ n && n ≤ 0x200A) || n == 0x2028 || n == 0x2029 || n == 0x202F ||
    n == 0x205F || n == 0x3000

def trimBlank (text : List Char) : List Char :=
  ((text.dropWhile isBlank).reverse.dropWhile isBlank).reverse

structure Version where
  major : Nat
  minor : Nat
  patch : Nat
  preRelease : List (List Char)
  build : List (List Char)
  deriving DecidableEq, Repr

namespace Version

def isNumeric (part : List Char) : Bool := part.all Char.isDigit

def hasLeadingZero (part : List Char) : Bool := part.head? == some '0' && 1 < part.length

/-- A number of 64 bits in digits, without leading zeros. -/
def number? (part : List Char) : Option Nat :=
  if part ≠ [] ∧ isNumeric part ∧ !hasLeadingZero part then
    let n := Nat.ofDigitChars 10 part 0
    if n < UInt64.size then some n else none
  else none

def isIdentifierChar (c : Char) : Bool := c.isAlphanum || c == '-'

def isIdentifier (part : List Char) : Bool := part ≠ [] && part.all isIdentifierChar

/-- Identifiers of a pre-release; a numeric one has no leading zero. -/
def preRelease? (text : List Char) : Option (List (List Char)) :=
  let parts := splitAt '.' text
  if parts.all fun part => isIdentifier part && !(isNumeric part && hasLeadingZero part) then
    some parts
  else none

def build? (text : List Char) : Option (List (List Char)) :=
  let parts := splitAt '.' text
  if parts.all isIdentifier then some parts else none

/-- An optional part must be well-formed where it is present; it is empty where it is not. -/
def optional (part? : List Char → Option (List (List Char))) :
    Option (List Char) → Option (List (List Char))
  | none => some []
  | some text => part? text

def ofText? (text : List Char) : Option Version :=
  let (front, build) := cutAt '+' text
  let (core, preRelease) := cutAt '-' front
  match splitAt '.' core with
  | [major, minor, patch] => do
    let major ← number? major
    let minor ← number? minor
    let patch ← number? patch
    let preRelease ← optional preRelease? preRelease
    let build ← optional build? build
    some { major, minor, patch, preRelease, build }
  | _ => none

def marked (mark : Char) (parts : List (List Char)) : List Char :=
  if parts = [] then [] else mark :: ['.'].intercalate parts

def text (v : Version) : List Char :=
  Nat.toDigits 10 v.major ++ '.' :: Nat.toDigits 10 v.minor ++ '.' :: Nat.toDigits 10 v.patch ++
    marked '-' v.preRelease ++ marked '+' v.build

end Version

end DiveTable
