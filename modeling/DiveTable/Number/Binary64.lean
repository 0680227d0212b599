import DiveTable.Number.Rounding

/-! Binary64 numbers without any machine float. The code of a magnitude is its biased exponent
and its fraction read as one number, so codes are ordered as magnitudes are. Every finite
magnitude is a whole number of units of 2^-1074, and every result below is the exact one,
rounded once. -/
namespace DiveTable

structure Binary64 where
  negative : Bool
  magnitude : BitVec 63
  deriving DecidableEq, Repr

namespace Binary64

def binade : Nat := twoTo 52

/-- The code of an infinite magnitude; the codes above it are no numbers. -/
def infinityCode : Nat := 2047 * binade

def code (x : Binary64) : Nat := x.magnitude.toNat

def isNaN (x : Binary64) : Bool := decide (infinityCode < x.code)
def isInfinite (x : Binary64) : Bool := decide (x.code = infinityCode)
def isFinite (x : Binary64) : Bool := decide (x.code < infinityCode)
def isZero (x : Binary64) : Bool := decide (x.code = 0)

def spacing (x : Binary64) : Nat := twoTo (x.code / binade - 1)

/-- The magnitude in units of 2^-1074; exact for every finite number. -/
def units (x : Binary64) : Nat :=
  if x.code < binade then x.code
  else (binade + x.code % binade) * x.spacing

def unitsPerOne : Nat := twoTo 1074

/-- The code nearest to `num / den` units. Fifty-three bits are kept of a large quotient, and a
rounding that carries moves on to the next exponent by itself. -/
def codeOfRatio (num den : Nat) : Nat :=
  let shift := (num / den).log2 - 52
  min infinityCode (shift * binade + roundHalfEven num (den * twoTo shift))

theorem codeOfRatio_le (num den : Nat) : codeOfRatio num den ≤ infinityCode :=
  Nat.min_le_left _ _

def ofRatio (negative : Bool) (num den : Nat) : Binary64 :=
  ⟨negative, BitVec.ofNatLT (codeOfRatio num den)
    (Nat.lt_of_le_of_lt (codeOfRatio_le num den) (by decide))⟩

@[simp] theorem negative_ofRatio (s : Bool) (num den : Nat) :
    (ofRatio s num den).negative = s := rfl

@[simp] theorem code_ofRatio (s : Bool) (num den : Nat) :
    (ofRatio s num den).code = codeOfRatio num den := rfl

def zero : Binary64 := ⟨false, 0⟩

def ofNat (n : Nat) : Binary64 := ofRatio false (n * unitsPerOne) 1

def neg (x : Binary64) : Binary64 := { x with negative := !x.negative }

def signedUnits (x : Binary64) : Int := if x.negative then -(x.units : Int) else x.units

/-- The sum of two finite numbers; a zero sum is negative only if both are. -/
def add (x y : Binary64) : Binary64 :=
  let sum := x.signedUnits + y.signedUnits
  ofRatio (sum < 0 || sum = 0 && x.negative && y.negative) sum.natAbs 1

def mul (x y : Binary64) : Binary64 :=
  ofRatio (x.negative != y.negative) (x.units * y.units) unitsPerOne

def div (x y : Binary64) : Binary64 :=
  ofRatio (x.negative != y.negative) (x.units * unitsPerOne) y.units

instance : Neg Binary64 := ⟨neg⟩
instance : Add Binary64 := ⟨add⟩
instance : Mul Binary64 := ⟨mul⟩
instance : Div Binary64 := ⟨div⟩

def tenPow (k : Nat) : Binary64 := ofNat (tenTo k)

end Binary64

/-! ## Texts with decimal places

The exact value is rounded, a tie to the even digit, and the sign bit is always shown, also in front
of a zero. -/

/-- At least `width` digits, with zeros in front; a longer number is not cut. -/
def zeroPadded (width n : Nat) : String :=
  let digits := Nat.toDigits 10 n
  String.ofList (List.replicate (width - digits.length) '0' ++ digits)

/-- `n` parts of which `10 ^ places` make one, with a point in front of the last `places` digits. -/
def pointed (places n : Nat) : String :=
  if places = 0 then n.repr
  else (n / tenTo places).repr ++ "." ++ zeroPadded places (n % tenTo places)

namespace Binary64

def parts (x : Binary64) (places : Nat) : Nat :=
  roundHalfEven (x.units * tenTo places) unitsPerOne

def signText (x : Binary64) : String := if x.negative then "-" else ""

def fixedText (x : Binary64) (places : Nat) : String :=
  if x.isNaN then "NaN"
  else x.signText ++ if x.isInfinite then "inf" else pointed places (x.parts places)

end Binary64

end DiveTable
