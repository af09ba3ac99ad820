/-!
# Double precision

Numbers of the 64-bit binary format, held as what they stand for. An operation computes exactly and
rounds once: to the nearest number of the format, a tie to the even significand, and past the
greatest number to infinity.
-/

namespace MediaIndex

/-- A finite number of the binary format: `significand * 2 ^ exponent` under a sign. -/
structure Binary where
  negative : Bool
  significand : Nat
  exponent : Int
  deriving DecidableEq, Repr, Inhabited

inductive Double where
  | nan
  | infinite (negative : Bool)
  | finite (value : Binary)
  deriving DecidableEq, Repr, Inhabited

namespace Binary

def leastExponent : Int := -1074

def greatestExponent : Int := 971

def zero (negative : Bool) : Binary := ⟨negative, 0, leastExponent⟩

def isZero (x : Binary) : Bool := x.significand == 0

def powerOfTwo (exponent : Int) : Nat × Nat :=
  (Nat.pow 2 exponent.toNat, Nat.pow 2 (-exponent).toNat)

def magnitude (x : Binary) : Nat × Nat :=
  let scale := powerOfTwo x.exponent
  (x.significand * scale.1, scale.2)

def withSign (x : Binary) (n : Nat) : Int :=
  if x.negative then -(n : Int) else n

def truncate (x : Binary) : Int :=
  x.withSign (x.magnitude.1 / x.magnitude.2)

def isWhole (x : Binary) : Bool :=
  x.magnitude.1 % x.magnitude.2 == 0

def isInt (x : Binary) (n : Int) : Bool :=
  x.isWhole && x.truncate == n

def toRat (x : Binary) : Rat :=
  (x.withSign x.magnitude.1 : Rat) / (x.magnitude.2 : Rat)

end Binary

namespace Double

/-- The whole number nearest to `num / den`, a half to the even neighbour. -/
def nearest (num den : Nat) : Nat :=
  let quotient := num / den
  let rest := num % den
  if 2 * rest < den then quotient
  else if den < 2 * rest then quotient + 1
  else quotient + quotient % 2

/-- The exponent `e` with `2 ^ e ≤ num / den < 2 ^ (e + 1)`, both numbers being positive. -/
def binade (num den : Nat) : Int :=
  let guess : Int := (Nat.log2 num : Int) - (Nat.log2 den : Int)
  let scale := Binary.powerOfTwo guess
  if den * scale.1 ≤ num * scale.2 then guess else guess - 1

def round (negative : Bool) (num den : Nat) : Double :=
  if num = 0 then .finite (Binary.zero negative)
  else
    let exponent := max (binade num den - 52) Binary.leastExponent
    let scale := Binary.powerOfTwo exponent
    let significand := nearest (num * scale.2) (den * scale.1)
    let carried := significand == 0x20000000000000
    let exponent := if carried then exponent + 1 else exponent
    let significand := if carried then 0x10000000000000 else significand
    if Binary.greatestExponent < exponent then .infinite negative
    else .finite ⟨negative, significand, exponent⟩

def ofInt? (n : Int) : Option Double :=
  match round (decide (n < 0)) n.natAbs 1 with
  | .infinite _ => none
  | x => some x

/-- The nearest number to `digits * 10 ^ exponent` under a sign. Exponents far outside the format
are settled by their size alone. -/
def ofDecimal (negative : Bool) (digits : Nat) (exponent : Int) : Double :=
  let point := exponent + ((Nat.repr digits).length : Int)
  if digits = 0 ∨ point < -330 then .finite (Binary.zero negative)
  else if 310 < point then .infinite negative
  else round negative (digits * Nat.pow 10 exponent.toNat) (Nat.pow 10 (-exponent).toNat)

def negative : Double → Bool
  | nan => false
  | infinite negative => negative
  | finite x => x.negative

def isZero : Double → Bool
  | finite x => x.isZero
  | _ => false

def isInt (x : Double) (n : Int) : Bool :=
  match x with
  | finite x => x.isInt n
  | _ => false

def mul (x y : Double) : Double :=
  let negative := x.negative != y.negative
  match x, y with
  | nan, _ | _, nan => nan
  | infinite _, y => if y.isZero then nan else infinite negative
  | x, infinite _ => if x.isZero then nan else infinite negative
  | finite x, finite y =>
    round negative (x.magnitude.1 * y.magnitude.1) (x.magnitude.2 * y.magnitude.2)

def div (x y : Double) : Double :=
  let negative := x.negative != y.negative
  match x, y with
  | nan, _ | _, nan => nan
  | infinite _, infinite _ => nan
  | infinite _, finite _ => infinite negative
  | finite _, infinite _ => finite (Binary.zero negative)
  | finite x, finite y =>
    if y.isZero then (if x.isZero then nan else infinite negative)
    else round negative (x.magnitude.1 * y.magnitude.2) (x.magnitude.2 * y.magnitude.1)

def lt : Double → Double → Bool
  | nan, _ | _, nan => false
  | infinite x, infinite y => x && !y
  | infinite x, finite _ => x
  | finite _, infinite y => !y
  | finite x, finite y => x.toRat < y.toRat

/-- The 64 bits of the format, most significant first; NaN as the quiet one without a sign. -/
def toBits : Double → Nat
  | nan => 0x7FF8000000000000
  | infinite negative => (if negative then 0x8000000000000000 else 0) + 0x7FF0000000000000
  | finite x =>
    let bits :=
      if x.significand < 0x10000000000000 then x.significand
      else (x.exponent - Binary.leastExponent + 1).toNat * 0x10000000000000 +
        (x.significand - 0x10000000000000)
    (if x.negative then 0x8000000000000000 else 0) + bits

end Double

end MediaIndex
