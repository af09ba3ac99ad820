import MediaIndex.Number.Double

/-!
# Decimal digits of a double

The fewest digits of a finite number that read back as the same number, and the layouts of numbers:
a layout says how the digits are chosen, where the point stands and when an exponent is written.
-/

namespace MediaIndex

structure Decimal where
  digits : Nat
  exponent : Int
  deriving DecidableEq, Repr

namespace Decimal

def dropZeros : Nat → Decimal → Decimal
  | 0, d => d
  | fuel + 1, d =>
    if d.digits ≠ 0 ∧ d.digits % 10 = 0 then dropZeros fuel ⟨d.digits / 10, d.exponent + 1⟩ else d

def trimmed (d : Decimal) : Decimal :=
  dropZeros (Nat.repr d.digits).length d

def powerOfTen (exponent : Int) : Nat × Nat :=
  (Nat.pow 10 exponent.toNat, Nat.pow 10 (-exponent).toNat)

/-- How many digits the positive number `num / den` has before the point, counted below zero for
zeros after it: `10 ^ (point - 1) ≤ num / den < 10 ^ point`, for numbers of the binary format. -/
def pointOf (num den : Nat) : Int :=
  ((Nat.repr (num * Nat.pow 10 400 / den)).length : Int) - 400

/-- The reals that round to a number, in quarters of its unit: both ends, and whether they
belong to it. -/
structure Reach where
  low : Nat
  high : Nat
  closed : Bool

/-- The reals that round to `x`. Below a power of two the numbers lie half as far apart. -/
def reach (x : Binary) : Reach where
  low :=
    if x.significand = 0x10000000000000 ∧ Binary.leastExponent < x.exponent then
      4 * x.significand - 1
    else 4 * x.significand - 2
  high := 4 * x.significand + 2
  closed := x.significand % 2 == 0

def readsBack (x : Binary) (candidate : Nat) (exponent : Int) : Bool :=
  let ten := powerOfTen exponent
  let unit := Binary.powerOfTwo (x.exponent - 2)
  let value := candidate * ten.1 * unit.2
  let low := (reach x).low * unit.1 * ten.2
  let high := (reach x).high * unit.1 * ten.2
  if (reach x).closed then low ≤ value && value ≤ high else low < value && value < high

/-- Of the two neighbours of `x` on the grid of `10 ^ exponent`, the one that reads back; if both
do, the nearer, and the even one if they are equally near. -/
def onGrid? (x : Binary) (exponent : Int) : Option Decimal :=
  let ten := powerOfTen exponent
  let num := x.magnitude.1 * ten.2
  let den := x.magnitude.2 * ten.1
  let below := num / den
  match readsBack x below exponent, readsBack x (below + 1) exponent with
  | true, true => some ⟨Double.nearest num den, exponent⟩
  | true, false => some ⟨below, exponent⟩
  | false, true => some ⟨below + 1, exponent⟩
  | false, false => none

/-- The first grid of 1, 2, …, 17 digits that holds a number which reads back as `x`. -/
def shortest (x : Binary) : Decimal :=
  if x.isZero then ⟨0, 0⟩
  else
    let point := pointOf x.magnitude.1 x.magnitude.2
    match (List.range 17).findSome? fun count => onGrid? x (point - (count + 1 : Nat)) with
    | some d => d.trimmed
    | none => ⟨0, 0⟩

end Decimal

/-- How a double is written. -/
structure DoubleLayout where
  /-- The digits chosen for a finite number. -/
  choose : Binary → Decimal
  signedZero : Bool
  /-- The greatest number of digits before the point; past it an exponent is written. -/
  greatestPoint : Int
  /-- A single digit before an exponent gets a fraction too. -/
  alwaysFraction : Bool
  nan : String
  infinity : String

namespace DoubleLayout

def leastPoint : Int := -3

def exponentText (n : Int) : String :=
  let digits := Nat.repr n.natAbs
  "e" ++ (if n < 0 then "-" else "+") ++ (if digits.length < 2 then "0" ++ digits else digits)

def decimalText (layout : DoubleLayout) (d : Decimal) : String :=
  let digits := Nat.toDigits 10 d.digits
  let count := digits.length
  let point : Int := count + d.exponent
  if leastPoint ≤ point ∧ point ≤ layout.greatestPoint then
    if point ≤ 0 then
      "0." ++ String.ofList (List.replicate (-point).toNat '0' ++ digits)
    else if (count : Int) ≤ point then
      String.ofList (digits ++ List.replicate (point.toNat - count) '0') ++ ".0"
    else
      String.ofList (digits.take point.toNat) ++ "." ++ String.ofList (digits.drop point.toNat)
  else
    let fraction := digits.drop 1
    let tail :=
      if fraction.isEmpty then (if layout.alwaysFraction then ".0" else "")
      else "." ++ String.ofList fraction
    String.ofList (digits.take 1) ++ tail ++ exponentText (point - 1)

def text (layout : DoubleLayout) : Double → String
  | .nan => layout.nan
  | .infinite negative => (if negative then "-" else "") ++ layout.infinity
  | .finite x =>
    let sign := x.negative && (layout.signedZero || !x.isZero)
    let body := if x.isZero then "0.0" else layout.decimalText (layout.choose x)
    (if sign then "-" else "") ++ body

def shown : DoubleLayout where
  choose := Decimal.shortest
  signedZero := true
  greatestPoint := 16
  alwaysFraction := false
  nan := "nan"
  infinity := "inf"

end DoubleLayout

end MediaIndex
