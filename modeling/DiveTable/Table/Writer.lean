import DiveTable.Fault

/-! Records of comma-separated fields, and writing them through a buffer. A field is put in quotes
only if it holds a character that would otherwise end it, and a quote inside is then written twice.
A writer holds text until there is no room for the next character, hands over what it holds, and
hands over the rest at the end. -/
namespace DiveTable

namespace Csv

def isSpecial (c : Char) : Bool := c == ',' || c == '"' || c == '\r' || c == '\n'

def isPlain (field : String) : Bool := !field.toList.any isSpecial

def fieldText (field : String) : String :=
  if isPlain field then field
  else
    let inside := field.toList.flatMap fun c => if c = '"' then ['"', '"'] else [c]
    String.ofList ('"' :: (inside ++ ['"']))

/-- The fields with commas between them and a line feed behind. A record of one empty field is
a pair of quotes, since an empty line is no record. -/
def recordText (fields : List String) : String :=
  let text := ",".intercalate (fields.map fieldText)
  (if text = "" then "\"\"" else text) ++ "\n"

@[simp] theorem fieldText_of_plain {field : String} (h : isPlain field = true) :
    fieldText field = field := by
  simp [fieldText, h]

theorem map_fieldText_of_plain {fields : List String} (h : ∀ f ∈ fields, isPlain f = true) :
    fields.map fieldText = fields :=
  (List.map_congr_left fun f hf => fieldText_of_plain (h f hf)).trans (List.map_id fields)

end Csv

inductive Call where
  | write (text : String)
  | flush
  deriving DecidableEq, Repr

def Call.text : Call → String
  | write text => text
  | flush => ""

/-- Where text goes: into memory, to a device that refuses every write for a reason, or to one
that takes or refuses a call by all the calls it has got, and may give a reason of its own. -/
inductive Sink where
  | memory (text : String)
  | refusing (reason : String)
  | device (got : List Call) (refusal? : List Call → Option String)

namespace Sink

def empty : Sink := memory ""

def ask (call : Call) : Sink → Except (String × Sink) Sink
  | memory held => .ok (memory (held ++ call.text))
  | refusing reason => .error (reason, refusing reason)
  | device got refusal? =>
    let behind := device (got ++ [call]) refusal?
    match refusal? (got ++ [call]) with
    | none => .ok behind
    | some reason => .error (reason, behind)

@[simp] theorem ask_memory (held : String) (call : Call) :
    (memory held).ask call = .ok (memory (held ++ call.text)) := rfl

@[simp] theorem ask_refusing (reason : String) (call : Call) :
    (refusing reason).ask call = .error (reason, refusing reason) := rfl

def text : Sink → String
  | memory held => held
  | _ => ""

end Sink

structure Writer where
  sink : Sink
  held : String

namespace Writer

def capacity : Nat := 8192

def new (sink : Sink) : Writer := ⟨sink, ""⟩

/-- Takes in a character; what is held is handed over if there is no room for it. -/
def push (w : Writer) (c : Char) : Except (String × Sink) Writer :=
  if w.held.utf8ByteSize + c.utf8Size ≤ capacity then .ok { w with held := w.held.push c }
  else match w.sink.ask (.write w.held) with
    | .ok sink => .ok ⟨sink, String.singleton c⟩
    | .error refusal => .error refusal

@[irreducible] def pushAll (w : Writer) : List Char → Except (String × Sink) Writer
  | [] => .ok w
  | c :: rest =>
    match w.push c with
    | .ok w => pushAll w rest
    | .error refusal => .error refusal

def put (w : Writer) (fields : List String) : Except (Fault × Sink) Writer :=
  (w.pushAll (Csv.recordText fields).toList).mapError (Prod.map .notWritten id)

def flush (w : Writer) : Except (Fault × Sink) Sink :=
  match w.sink.ask (.write w.held) with
  | .error refusal => .error (refusal.map .io id)
  | .ok sink => (sink.ask .flush).mapError (Prod.map .io id)

end Writer

end DiveTable
