/-! The bytes of texts: those of ASCII that have a meaning here, and the characters of UTF-8. -/
namespace DiveTable.Ascii

abbrev tab : UInt8 := 0x09
abbrev lineFeed : UInt8 := 0x0A
abbrev formFeed : UInt8 := 0x0C
abbrev carriageReturn : UInt8 := 0x0D
abbrev space : UInt8 := 0x20
abbrev quote : UInt8 := 0x22
abbrev plus : UInt8 := 0x2B
abbrev comma : UInt8 := 0x2C
abbrev minus : UInt8 := 0x2D
abbrev point : UInt8 := 0x2E
abbrev slash : UInt8 := 0x2F
abbrev zero : UInt8 := 0x30
abbrev colon : UInt8 := 0x3A
abbrev upperE : UInt8 := 0x45
abbrev openBracket : UInt8 := 0x5B
abbrev backslash : UInt8 := 0x5C
abbrev closeBracket : UInt8 := 0x5D
abbrev lowerB : UInt8 := 0x62
abbrev lowerE : UInt8 := 0x65
abbrev lowerF : UInt8 := 0x66
abbrev lowerN : UInt8 := 0x6E
abbrev lowerR : UInt8 := 0x72
abbrev lowerT : UInt8 := 0x74
abbrev lowerU : UInt8 := 0x75
abbrev openBrace : UInt8 := 0x7B
abbrev closeBrace : UInt8 := 0x7D

def digit? (b : UInt8) : Option Nat :=
  if 0x30 ≤ b && b ≤ 0x39 then some (b.toNat - 0x30) else none

def hexDigit? (b : UInt8) : Option Nat :=
  if 0x30 ≤ b && b ≤ 0x39 then some (b.toNat - 0x30)
  else if 0x41 ≤ b && b ≤ 0x46 then some (b.toNat - 0x37)
  else if 0x61 ≤ b && b ≤ 0x66 then some (b.toNat - 0x57)
  else none

theorem digit_lt {b : UInt8} {d : Nat} (h : digit? b = some d) : d < 10 := by
  simp only [digit?, Option.ite_none_right_eq_some, Bool.and_eq_true, decide_eq_true_eq,
    UInt8.le_iff_toNat_le, Option.some.injEq] at h
  have : (0x39 : UInt8).toNat = 57 := rfl
  omega

end DiveTable.Ascii

/-! ## UTF-8

The longest well-formed start of a byte string, as characters, with what is left. A byte string is a
text exactly when nothing is left. -/

namespace DiveTable.Utf8

def isContinuation (b : UInt8) : Bool := 0x80 ≤ b && b ≤ 0xBF

def isPair (a b : UInt8) : Bool := 0xC2 ≤ a && a ≤ 0xDF && isContinuation b

/-- Three bytes; neither longer than needed nor a surrogate. -/
def isTriple (a b c : UInt8) : Bool :=
  isContinuation c &&
    ((a == 0xE0 && 0xA0 ≤ b && b ≤ 0xBF) ||
      (0xE1 ≤ a && a ≤ 0xEF && a != 0xED && isContinuation b) ||
      (a == 0xED && 0x80 ≤ b && b ≤ 0x9F))

/-- Four bytes; neither longer than needed nor beyond the last character. -/
def isQuadruple (a b c d : UInt8) : Bool :=
  isContinuation c && isContinuation d &&
    ((a == 0xF0 && 0x90 ≤ b && b ≤ 0xBF) || (0xF1 ≤ a && a ≤ 0xF3 && isContinuation b) ||
      (a == 0xF4 && 0x80 ≤ b && b ≤ 0x8F))

def pair (a b : UInt8) : Char := Char.ofNat ((a.toNat - 0xC0) * 0x40 + (b.toNat - 0x80))

def triple (a b c : UInt8) : Char :=
  Char.ofNat ((a.toNat - 0xE0) * 0x1000 + (b.toNat - 0x80) * 0x40 + (c.toNat - 0x80))

def quadruple (a b c d : UInt8) : Char :=
  Char.ofNat ((a.toNat - 0xF0) * 0x40000 + (b.toNat - 0x80) * 0x1000 +
    (c.toNat - 0x80) * 0x40 + (d.toNat - 0x80))

def push (c : Char) (read : List Char × List UInt8) : List Char × List UInt8 :=
  (c :: read.1, read.2)

/-- The characters of the longest well-formed start, and the bytes from the first fault on. -/
def decode : List UInt8 → List Char × List UInt8
  | [] => ([], [])
  | a :: rest =>
    if a < 0x80 then push (Char.ofNat a.toNat) (decode rest)
    else match rest with
      | [] => ([], [a])
      | b :: rest =>
        if isPair a b then push (pair a b) (decode rest)
        else match rest with
          | [] => ([], [a, b])
          | c :: rest =>
            if isTriple a b c then push (triple a b c) (decode rest)
            else match rest with
              | [] => ([], [a, b, c])
              | d :: rest =>
                if isQuadruple a b c d then push (quadruple a b c d) (decode rest)
                else ([], a :: b :: c :: d :: rest)

def encode (text : List Char) : List UInt8 := text.flatMap String.utf8EncodeChar

theorem encode_append (s t : List Char) : encode (s ++ t) = encode s ++ encode t :=
  List.flatMap_append

end DiveTable.Utf8
