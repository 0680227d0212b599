import DiveTable.Number.Binary64

/-! The shortest decimal that reads back as a given binary64 number, and its text. A decimal
reads back when it lies between the midpoints to the two neighbours; a midpoint itself goes to
the even code. Decimals with one digit are tried first, then with two, and of two on one grid
the nearer is taken, of two equally near ones the even one. All comparisons are of natural
numbers, scaled by `10 ^ 400` and by four. -/
namespace DiveTable

structure Decimal where
  digits : Nat
  exponent : Int
  deriving DecidableEq, Repr

namespace Binary64

def decimalScale : Nat := 400

/-- A quarter unit is small enough to make both midpoints whole. -/
def quarters (x : Binary64) : Nat := 4 * x.units

/-- The gap below a power of two is half the gap above it. -/
def lowerMidpoint (x : Binary64) : Nat :=
  if x.code % binade = 0 ∧ 2 * binade ≤ x.code then x.quarters - x.spacing
  else x.quarters - 2 * x.spacing

def upperMidpoint (x : Binary64) : Nat := x.quarters + 2 * x.spacing

def readsBack (x : Binary64) (point : Nat) : Bool :=
  let low := x.lowerMidpoint * tenTo decimalScale
  let high := x.upperMidpoint * tenTo decimalScale
  if x.code % 2 = 0 then low ≤ point && point ≤ high else low < point && point < high

/-- The multiple of `10 ^ place` next to `x` that reads back, the nearer if both do;
`place` counts from `10 ^ -400`. -/
def onGrid (x : Binary64) (place : Nat) : Option Nat :=
  let value := x.quarters * tenTo decimalScale
  let step := 4 * unitsPerOne * tenTo place
  let below := value / step
  let above := below + 1
  match x.readsBack (below * step), x.readsBack (above * step) with
  | false, false => none
  | true, false => some below
  | false, true => some above
  | true, true => some (roundHalfEven value step)

def shortest (x : Binary64) : Decimal :=
  let width := (Nat.toDigits 10 (x.units * tenTo decimalScale / unitsPerOne)).length
  let found := (List.range 17).findSome? fun i =>
    (x.onGrid (width - 1 - i)).map fun digits => (digits, width - 1 - i)
  let (digits, place) := found.getD (x.units * tenTo decimalScale / unitsPerOne, 0)
  ⟨digits, (place : Int) - decimalScale⟩

def plainText (digits : List Char) (whole : Int) : List Char :=
  if whole ≤ 0 then '0' :: '.' :: (List.replicate whole.natAbs '0' ++ digits)
  else if digits.length ≤ whole.toNat then
    digits ++ List.replicate (whole.toNat - digits.length) '0' ++ ['.', '0']
  else digits.take whole.toNat ++ '.' :: digits.drop whole.toNat

def scientificText (digits : List Char) (exponent : Int) : List Char :=
  let fraction := digits.drop 1
  digits.take 1 ++ (if fraction.isEmpty then [] else '.' :: fraction) ++
    ('e' :: (if exponent < 0 then '-' else '+') :: Nat.toDigits 10 exponent.natAbs)

/-- The text of a finite number. It is plain while the first digit stands between the fifth
place after the point and the sixteenth before it. -/
def shortestText (x : Binary64) : String :=
  if x.isZero then x.signText ++ "0.0"
  else
    let decimal := x.shortest
    let all := Nat.toDigits 10 decimal.digits
    let digits := (all.reverse.dropWhile (· == '0')).reverse
    let exponent := (all.length : Int) - 1 + decimal.exponent
    let text :=
      if -5 ≤ exponent ∧ exponent ≤ 15 then plainText digits (exponent + 1)
      else scientificText digits exponent
    x.signText ++ String.ofList text

end Binary64

end DiveTable
