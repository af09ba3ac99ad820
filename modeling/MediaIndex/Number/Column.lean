import MediaIndex.Number.Digits
import MediaIndex.Number.Extended
import MediaIndex.Number.Numeral

/-!
# Numbers in columns

How the columns of a catalog turn numerals into numbers and numbers into numerals. Both ways they
compute in extended precision: of a numeral the first eighteen or nineteen digits count, and a
number is written with fifteen. Neither way is exact, so that what is stored may differ in the last
place from the nearest number or numeral.
-/

namespace MediaIndex

namespace Decimal

/-- Digits are dropped as long as what is left of them reaches this number. -/
def digitBound : Nat := 922337203685477579

/-- Drops the digits that do not count; `fuel` bounds their number. -/
def dropExcess : Nat → Decimal → Decimal
  | 0, d => d
  | fuel + 1, d =>
    if digitBound ≤ d.digits / 10 then dropExcess fuel ⟨d.digits / 10, d.exponent + 1⟩ else d

def absorb : Nat → Decimal → Decimal
  | 0, d => d
  | fuel + 1, d =>
    if 0 < d.exponent ∧ d.digits ≤ digitBound then
      absorb fuel ⟨d.digits * 10, d.exponent - 1⟩
    else d

def release : Nat → Decimal → Decimal
  | 0, d => d
  | fuel + 1, d =>
    if d.exponent < 0 ∧ d.digits % 10 = 0 then release fuel ⟨d.digits / 10, d.exponent + 1⟩ else d

def eased (d : Decimal) : Decimal :=
  let kept := dropExcess (Nat.repr d.digits).length d
  let room := 20
  release room (absorb room kept)

end Decimal

/-- The double that a column makes of `digits * 10 ^ exponent` under a sign. Scaling by more than
307 places takes two roundings. -/
def Double.ofColumnDecimal (negative : Bool) (d : Decimal) : Double :=
  let places := d.exponent.natAbs
  let far := Double.ofDecimal false 1 308
  if d.digits = 0 then .finite (Binary.zero negative)
  else if places ≤ 307 then (Extended.scaled d.digits d.exponent).toDouble negative
  else if 342 ≤ places then
    if d.exponent < 0 then .finite (Binary.zero negative) else .infinite negative
  else if d.exponent < 0 then
    ((Extended.scaled d.digits (d.exponent + 308)).toDouble negative).div far
  else ((Extended.scaled d.digits (d.exponent - 308)).toDouble negative).mul far

def Numeral.toColumnDouble (n : Numeral) : Double :=
  Double.ofColumnDecimal n.negative (Decimal.eased ⟨n.digits, n.exponent⟩)

namespace Extended

def stepLimit : Nat := 400

def climb (x step : Extended) : Nat → Extended → Extended × Nat
  | 0, scale => (scale, 0)
  | fuel + 1, scale =>
    if (scale.mul step).le x then
      let (top, count) := climb x step fuel (scale.mul step)
      (top, count + 1)
    else (scale, 0)

def raise (bound step : Extended) : Nat → Extended → Extended × Nat
  | 0, x => (x, 0)
  | fuel + 1, x =>
    if bound.le x then (x, 0)
    else
      let (top, count) := raise bound step fuel (x.mul step)
      (top, count + 1)

def normalized (x : Extended) : Extended × Int :=
  let (scale, hundreds) := climb x (ofDecimal 1 100) stepLimit (ofNat 1)
  let (scale, tens) := climb x (ofDecimal 1 10) stepLimit scale
  let (scale, ones) := climb x (ofNat 10) stepLimit scale
  let (x, eights) := raise (ofDecimal 1 (-8)) (ofDecimal 1 8) stepLimit (x.div scale)
  let (x, singles) := raise (ofNat 1) (ofNat 10) stepLimit x
  (x, 100 * hundreds + 10 * tens + ones - 8 * eights - singles)

/-- Appends the first digits of a number below ten, one by one. -/
def appendDigits : Nat → Extended → Nat → Nat
  | 0, _, done => done
  | count + 1, x, done =>
    let (num, den) := x.magnitude
    appendDigits count (round (num % den * 10) den) (done * 10 + num / den)

end Extended

def Decimal.columnHalf : Extended :=
  match (Double.ofDecimal false 5 (-5)).mul (Double.ofDecimal false 1 (-10)) with
  | .finite x => .ofBinary x
  | _ => ⟨0, 0⟩

def Decimal.column (x : Binary) : Decimal :=
  let (y, point) := (Extended.ofBinary x).normalized
  let y := y.add columnHalf
  let (y, point) :=
    if (Extended.ofNat 10).le y then (y.mul (Extended.ofDecimal 1 (-1)), point + 1) else (y, point)
  (Decimal.mk (y.appendDigits 15 0) (point - 14)).trimmed

def DoubleLayout.column : DoubleLayout where
  choose := Decimal.column
  signedZero := false
  greatestPoint := 15
  alwaysFraction := true
  nan := ""
  infinity := "Inf"

end MediaIndex
