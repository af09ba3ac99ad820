import MediaIndex.Number.Double

/-!
# Extended precision

Numbers of 64 significant bits, without a sign and without bounds on the exponent. An operation
computes exactly and rounds once: to the nearest number, a tie to the even significand. Since 64
bits do not hold every power of ten, a decimal that is scaled in this precision and then rounded to
a double may miss the nearest double by a unit in the last place.
-/

namespace MediaIndex

structure Extended where
  significand : Nat
  exponent : Int
  deriving DecidableEq, Repr

namespace Extended

def magnitude (x : Extended) : Nat × Nat :=
  let scale := Binary.powerOfTwo x.exponent
  (x.significand * scale.1, scale.2)

def round (num den : Nat) : Extended :=
  if num = 0 then ⟨0, 0⟩
  else
    let exponent := Double.binade num den - 63
    let scale := Binary.powerOfTwo exponent
    ⟨Double.nearest (num * scale.2) (den * scale.1), exponent⟩

def ofNat (n : Nat) : Extended := round n 1

/-- A number of double precision without its sign, which is a number of this precision too. -/
def ofBinary (x : Binary) : Extended := ⟨x.significand, x.exponent⟩

def ofDecimal (digits : Nat) (exponent : Int) : Extended :=
  match Double.ofDecimal false digits exponent with
  | .finite x => ofBinary x
  | _ => ⟨0, 0⟩

def toDouble (negative : Bool) (x : Extended) : Double :=
  Double.round negative x.magnitude.1 x.magnitude.2

def le (x y : Extended) : Bool :=
  x.magnitude.1 * y.magnitude.2 ≤ y.magnitude.1 * x.magnitude.2

def add (x y : Extended) : Extended :=
  round (x.magnitude.1 * y.magnitude.2 + y.magnitude.1 * x.magnitude.2)
    (x.magnitude.2 * y.magnitude.2)

def mul (x y : Extended) : Extended :=
  round (x.magnitude.1 * y.magnitude.1) (x.magnitude.2 * y.magnitude.2)

def div (x y : Extended) : Extended :=
  round (x.magnitude.1 * y.magnitude.2) (x.magnitude.2 * y.magnitude.1)

/-- `done * base ^ exponent` by squaring, every product rounded. -/
def timesPower (done base : Extended) (exponent : Nat) : Extended :=
  if exponent = 0 then done
  else
    timesPower (if exponent % 2 = 1 then done.mul base else done) (base.mul base) (exponent / 2)
termination_by exponent
decreasing_by omega

def powerOfTen (exponent : Nat) : Extended :=
  timesPower (ofNat 1) (ofNat 10) exponent

def scaled (digits : Nat) (exponent : Int) : Extended :=
  let power := powerOfTen exponent.natAbs
  if exponent < 0 then (ofNat digits).div power else (ofNat digits).mul power

end Extended

end MediaIndex
