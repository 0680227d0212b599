import DiveTable.Number.Shortest

/-! JSON values as they are kept: whole numbers of one word stay exact, all others are binary64,
and the members of an object are in ascending order of their keys, each key once. -/
namespace DiveTable.Json

/-- `negative n` is minus `n`, which is not zero. -/
inductive Number where
  | natural (n : UInt64)
  | negative (n : UInt64)
  | binary (x : Binary64)
  deriving DecidableEq, Repr

def Number.toBinary64 : Number → Binary64
  | .natural n => .ofNat n.toNat
  | .negative n => -.ofNat n.toNat
  | .binary x => x

inductive Value where
  | null
  | boolean (b : Bool)
  | number (n : Number)
  | string (text : String)
  | array (items : List Value)
  | object (members : List (String × Value))
  deriving Repr

abbrev Members := List (String × Value)

def Members.insert (key : String) (value : Value) : Members → Members
  | [] => [(key, value)]
  | (k, v) :: rest =>
    if key < k then (key, value) :: (k, v) :: rest
    else if key = k then (key, value) :: rest
    else (k, v) :: insert key value rest

theorem lookup_pair {α β : Type} [DecidableEq α] (key other : α) (value : β)
    (rest : List (α × β)) :
    ((key, value) :: rest).lookup other =
      if other = key then some value else rest.lookup other := by
  by_cases h : other = key
  · simp [h]
  · simp [List.lookup_cons, beq_eq_false_iff_ne.2 h, h]

theorem Members.lookup_insert (key other : String) (value : Value) (members : Members) :
    (members.insert key value).lookup other =
      if other = key then some value else members.lookup other := by
  induction members with
  | nil => exact lookup_pair key other value []
  | cons member rest ih =>
    obtain ⟨k, v⟩ := member
    unfold insert
    by_cases hlt : key < k
    · rw [if_pos hlt, lookup_pair]
    · rw [if_neg hlt]
      by_cases hk : key = k
      · rw [if_pos hk, lookup_pair, lookup_pair, ← hk]
        split <;> rfl
      · rw [if_neg hk, lookup_pair, lookup_pair, ih]
        by_cases h : other = k
        · simp [h, Ne.symm hk]
        · simp [h]

/-! ## The compact text of a value

No blanks, members in their order, controls escaped. -/

def escapedChar (c : Char) : List Char :=
  if c = '"' then ['\\', '"']
  else if c = '\\' then ['\\', '\\']
  else if c = '\x08' then ['\\', 'b']
  else if c = '\x09' then ['\\', 't']
  else if c = '\x0a' then ['\\', 'n']
  else if c = '\x0c' then ['\\', 'f']
  else if c = '\x0d' then ['\\', 'r']
  else if c.toNat < 0x20 then
    ['\\', 'u', '0', '0', Nat.digitChar (c.toNat / 16), Nat.digitChar (c.toNat % 16)]
  else [c]

def stringText (text : String) : String :=
  String.ofList ('"' :: (text.toList.flatMap escapedChar ++ ['"']))

def Number.text : Number → String
  | .natural n => n.toNat.repr
  | .negative n => "-" ++ n.toNat.repr
  | .binary x => x.shortestText

mutual

def Value.text : Value → String
  | .null => "null"
  | .boolean b => if b then "true" else "false"
  | .number n => n.text
  | .string s => stringText s
  | .array items => "[" ++ ",".intercalate (itemTexts items) ++ "]"
  | .object members => "\x7b" ++ ",".intercalate (memberTexts members) ++ "\x7d"

def itemTexts : List Value → List String
  | [] => []
  | v :: rest => v.text :: itemTexts rest

def memberTexts : List (String × Value) → List String
  | [] => []
  | (k, v) :: rest => (stringText k ++ ":" ++ v.text) :: memberTexts rest

end

end DiveTable.Json
