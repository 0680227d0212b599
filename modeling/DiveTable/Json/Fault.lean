import DiveTable.Json.Value
import DiveTable.Text.Utf8
import DiveTable.Text.Quoted

/-! What can be wrong with a JSON text, and where. A mismatch is a well-formed value of the wrong
shape; inside an already read value it has no place in the text. -/
namespace DiveTable.Json

inductive Shape where
  | null
  | boolean (b : Bool)
  | number (n : Number)
  | string (text : String)
  | sequence
  | map
  deriving DecidableEq, Repr

def Value.shape : Value → Shape
  | .null => .null
  | .boolean b => .boolean b
  | .number n => .number n
  | .string s => .string s
  | .array _ => .sequence
  | .object _ => .map

def Shape.text : Shape → String
  | .null => "null"
  | .boolean b => "boolean `" ++ (if b then "true" else "false") ++ "`"
  | .number (.natural n) => "integer `" ++ n.toNat.repr ++ "`"
  | .number (.negative n) => "integer `-" ++ n.toNat.repr ++ "`"
  | .number (.binary x) => "floating point `" ++ x.shortestText ++ "`"
  | .string s => "string " ++ quoted s
  | .sequence => "sequence"
  | .map => "map"

inductive Mismatch where
  | missingField (name : String)
  | duplicateField (name : String)
  | wrongType (found : Shape) (expected : String)
  | wrongValue (found : Shape) (expected : String)
  | wrongLength (length : Nat) (expected : String)
  deriving DecidableEq, Repr

def Mismatch.message : Mismatch → String
  | .missingField name => "missing field `" ++ name ++ "`"
  | .duplicateField name => "duplicate field `" ++ name ++ "`"
  | .wrongType found expected => "invalid type: " ++ found.text ++ ", expected " ++ expected
  | .wrongValue found expected => "invalid value: " ++ found.text ++ ", expected " ++ expected
  | .wrongLength length expected => "invalid length " ++ length.repr ++ ", expected " ++ expected

inductive Cause where
  | endInList
  | endInObject
  | endInString
  | endInValue
  | expectedColon
  | expectedListEnd
  | expectedObjectEnd
  | expectedKeyword
  | expectedValue
  | badEscape
  | badNumber
  | numberOutOfRange
  | badUnicode
  | controlCharacter
  | keyNotString
  | loneSurrogate
  | trailingComma
  | trailingCharacters
  | shortSurrogatePair
  | tooDeep
  | mismatch (m : Mismatch)
  deriving DecidableEq, Repr

def Cause.message : Cause → String
  | .endInList => "EOF while parsing a list"
  | .endInObject => "EOF while parsing an object"
  | .endInString => "EOF while parsing a string"
  | .endInValue => "EOF while parsing a value"
  | .expectedColon => "expected `:`"
  | .expectedListEnd => "expected `,` or `]`"
  | .expectedObjectEnd => "expected `,` or `\x7d`"
  | .expectedKeyword => "expected ident"
  | .expectedValue => "expected value"
  | .badEscape => "invalid escape"
  | .badNumber => "invalid number"
  | .numberOutOfRange => "number out of range"
  | .badUnicode => "invalid unicode code point"
  | .controlCharacter => "control character (\\u0000-\\u001F) found while parsing a string"
  | .keyNotString => "key must be a string"
  | .loneSurrogate => "lone leading surrogate in hex escape"
  | .trailingComma => "trailing comma"
  | .trailingCharacters => "trailing characters"
  | .shortSurrogatePair => "unexpected end of hex escape"
  | .tooDeep => "recursion limit exceeded"
  | .mismatch m => m.message

/-- A cause with the line and the column it was noticed at. -/
structure Fault where
  cause : Cause
  line : Nat
  column : Nat
  deriving DecidableEq, Repr

def Fault.message (fault : Fault) : String :=
  fault.cause.message ++ " at line " ++ fault.line.repr ++ " column " ++ fault.column.repr

/-- A cause while a text is being read, with the count of bytes that come after its place. -/
structure Stop where
  cause : Cause
  unread : Nat
  deriving DecidableEq, Repr

namespace Stop

def before (cause : Cause) (rest : List UInt8) : Stop := ⟨cause, rest.length⟩

/-- Noticed at the first byte of `rest`, or at the end of the text. -/
def on (cause : Cause) (rest : List UInt8) : Stop := ⟨cause, rest.length - 1⟩

/-- Lines count from one; the column is the count of bytes since the last line feed. -/
def locate (stop : Stop) (input : List UInt8) : Fault :=
  let read := input.take (input.length - stop.unread)
  { cause := stop.cause
    line := 1 + read.count Ascii.lineFeed
    column := (read.reverse.takeWhile (· != Ascii.lineFeed)).length }

end Stop

abbrev Read (α : Type) := Except Stop (α × List UInt8)

end DiveTable.Json
