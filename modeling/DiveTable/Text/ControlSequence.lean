import DiveTable.Text.Utf8

/-! Control sequences inside a text. They start with an escape character and speak to a terminal,
so a channel that is none shows a text without them, and without other controls but for blanks
and line ends. -/
namespace DiveTable.ControlSequence

inductive State where
  | outside
  | escape
  | intermediates
  | parameters
  /-- Inside the header of a device control string. -/
  | header
  | headerParameters
  | headerIntermediates
  /-- Inside a string that a single byte ends. -/
  | string
  /-- Inside a command that the bell ends. -/
  | command
  deriving DecidableEq, Repr

def isBlankControl (c : Char) : Bool := c = '\t' || c = '\n' || c = '\x0c' || c = '\r'

def isPlain (c : Char) : Bool := ' ' ≤ c && c ≠ '\x7f' || isBlankControl c

def isIntermediate (c : Char) : Bool := ' ' ≤ c && c ≤ '/'

def isParameter (c : Char) : Bool := '0' ≤ c && c ≤ '?'

def isFinal (c : Char) : Bool := '@' ≤ c && c ≤ '~'

def endsString (c : Char) : Bool := (Utf8.encode [c]).contains 0x9C

/-- The state behind a character. An escape character starts a sequence wherever it stands, and a
character that has no meaning in a state leaves it as it is. -/
def State.next (state : State) (c : Char) : State :=
  if c = '\x1b' then .escape
  else if c = '\x18' ∨ c = '\x1a' then .outside
  else match state with
    | outside => .outside
    | escape =>
      if c = '[' then .parameters
      else if c = ']' then .command
      else if c = 'P' then .header
      else if c = 'X' ∨ c = '^' ∨ c = '_' then .string
      else if isIntermediate c then .intermediates
      else if isParameter c || isFinal c then .outside
      else .escape
    | intermediates => if isParameter c || isFinal c then .outside else .intermediates
    | parameters => if isFinal c then .outside else .parameters
    | header =>
      if isIntermediate c then .headerIntermediates
      else if isParameter c then .headerParameters
      else if isFinal c then .string
      else .header
    | headerParameters =>
      if isIntermediate c then .headerIntermediates
      else if '<' ≤ c && c ≤ '?' || isFinal c then .string
      else .headerParameters
    | headerIntermediates => if isParameter c || isFinal c then .string else .headerIntermediates
    | string => if endsString c then .outside else .string
    | command => if c = '\x07' then .outside else .command

def State.shows (state : State) (c : Char) : Bool :=
  match state with
  | outside => isPlain c
  | escape | intermediates | parameters => isBlankControl c
  | _ => false

/-- The characters that are shown, from a state on. A blank inside a sequence shows also what
follows it, up to the next control, which goes on with the sequence; a character that is not
ASCII ends the sequence then. -/
def shown (state : State) (showing : Bool) : List Char → List Char
  | [] => []
  | c :: rest =>
    if showing && isPlain c then c :: shown (if c ≤ '\x7f' then state else .outside) true rest
    else if state.shows c then c :: shown (state.next c) true rest
    else shown (state.next c) false rest

def plainText (text : String) : String := String.ofList (shown .outside false text.toList)

end DiveTable.ControlSequence
