import MediaIndex.Number.Double
import MediaIndex.Text.Blank
import MediaIndex.Text.Digit

/-!
# Numerals

Numbers written in decimal: an optional sign, digits with an optional point, an optional exponent.
Two readers share this form. The liberal one, for values that decoders report, takes the digits of
every script, single underscores between digits, and blanks at both ends; the strict one, for
number columns, takes plain digits and plain blanks.
-/

namespace MediaIndex

open Text

/-- A number in decimal: `digits * 10 ^ exponent` under a sign. `whole` says that neither a point
nor an exponent was written. -/
structure Numeral where
  negative : Bool
  digits : Nat
  exponent : Int
  whole : Bool
  deriving DecidableEq, Repr

namespace Numeral

def readSign : List Char → Bool × List Char
  | '-' :: cs => (true, cs)
  | '+' :: cs => (false, cs)
  | cs => (false, cs)

/-- The exponent that ends a numeral: nothing, or a letter e, a sign and digits, whose number
`value` tells. -/
def readExponent? (value : List Char → Nat) : List Char → Option Int
  | [] => some 0
  | c :: cs =>
    let (negative, digits) := readSign cs
    if (c = 'e' ∨ c = 'E') ∧ digits ≠ [] ∧ digits.all Char.isDigit then
      some (if negative then -(value digits : Int) else value digits)
    else none

def read? (value : List Char → Nat) (cs : List Char) : Option Numeral :=
  let (negative, cs) := readSign cs
  let front := cs.takeWhile Char.isDigit
  let rest := cs.dropWhile Char.isDigit
  let (fraction, tail) := match rest with
    | '.' :: cs => (cs.takeWhile Char.isDigit, cs.dropWhile Char.isDigit)
    | _ => ([], rest)
  if front = [] ∧ fraction = [] then none
  else (readExponent? value tail).map fun exponent =>
    { negative, digits := digitsValue (front ++ fraction), exponent := exponent - fraction.length,
      whole := rest.isEmpty }

def ofChars? (cs : List Char) : Option Numeral :=
  read? digitsValue cs

def toInt (n : Numeral) : Int :=
  if n.negative then -(n.digits : Int) else n.digits

def toDouble (n : Numeral) : Double :=
  Double.ofDecimal n.negative n.digits n.exponent

/-- Blanks that may surround a numeral. The four separators of records are none. -/
def isMargin (c : Char) : Bool :=
  isBlank c && !(0x1C ≤ c.toNat && c.toNat ≤ 0x1F)

def plainDigit (c : Char) : Char :=
  match digitValue? c with
  | some d => Nat.digitChar d
  | none => c

/-- Drops the underscores, each of which has to stand between two digits, and makes the digits
plain. -/
def plain? (afterDigit : Bool) : List Char → Option (List Char)
  | [] => some []
  | c :: cs =>
    if c = '_' then
      if afterDigit ∧ cs.head?.any isDigit then plain? false cs else none
    else (plain? (isDigit c) cs).map (plainDigit c :: ·)

def named? (cs : List Char) : Option Double :=
  let (negative, name) := readSign cs
  let name := String.ofList (name.map Char.toLower)
  if name = "inf" ∨ name = "infinity" then some (.infinite negative)
  else if name = "nan" then some .nan
  else none

def double? (cs : List Char) : Option Double :=
  let cs := stripped isMargin cs
  (named? cs).orElse fun _ => ((plain? false cs).bind ofChars?).map toDouble

def digitLimit : Nat := 4300

inductive IntegerReading where
  | value (n : Int)
  | malformed
  | tooLong (digits : Nat)
  deriving DecidableEq, Repr

/-- The integer that a text stands for, read liberally. Too many digits are noticed before what
follows them. -/
def integer (cs : List Char) : IntegerReading :=
  let (negative, cs) := readSign (stripped isMargin cs)
  let isPart (c : Char) : Bool := isDigit c || c == '_'
  match plain? false (cs.takeWhile isPart) with
  | none | some [] => .malformed
  | some digits =>
    if digitLimit < digits.length then .tooLong digits.length
    else if cs.any (!isPart ·) then .malformed
    else .value (if negative then -(digitsValue digits : Int) else digitsValue digits)

def isColumnMargin (c : Char) : Bool :=
  c == ' ' || (0x09 ≤ c.toNat && c.toNat ≤ 0x0D)

/-- An exponent of more than five digits counts as ten thousand in a number column. -/
def columnExponent (digits : List Char) : Nat :=
  if 100000 ≤ digitsValue digits then 10000 else digitsValue digits

def column? (cs : List Char) : Option Numeral :=
  read? columnExponent (stripped isColumnMargin cs)

end Numeral

end MediaIndex
