import MediaIndex.Calendar.Moment
import MediaIndex.Text.Blank
import MediaIndex.Text.Digit

/-!
# Patterns of written moments

A pattern lists what stands in a written moment: fixed characters, runs of blanks, and fields. A
field has several forms, tried in a fixed order; reading backs up to the next form when what
follows does not fit, takes the first way through the pattern, and then has to be at the end of the
text.
-/

namespace MediaIndex

open Text

inductive CharClass where
  | between (first last : Char)
  /-- A decimal digit of any script. -/
  | digit
  deriving DecidableEq

def CharClass.holds : CharClass → Char → Bool
  | between first last, c => first ≤ c && c ≤ last
  | digit, c => isDigit c

inductive MomentField where
  | year
  | month
  | day
  | hour
  | minute
  | second
  deriving DecidableEq

namespace MomentField

open CharClass in
def forms : MomentField → List (List CharClass)
  | year => [[digit, digit, digit, digit]]
  | month => [[between '1' '1', between '0' '2'], [between '0' '0', between '1' '9'],
      [between '1' '9']]
  | day => [[between '3' '3', between '0' '1'], [between '1' '2', digit],
      [between '0' '0', between '1' '9'], [between '1' '9'], [between ' ' ' ', between '1' '9']]
  | hour => [[between '2' '2', between '0' '3'], [between '0' '1', digit], [digit]]
  | minute => [[between '0' '5', digit], [digit]]
  | second => [[between '6' '6', between '0' '1'], [between '0' '5', digit], [digit]]

end MomentField

def takeForm? : List CharClass → List Char → Option (List Char × List Char)
  | [], cs => some ([], cs)
  | _ :: _, [] => none
  | k :: ks, c :: cs =>
    if k.holds c then (takeForm? ks cs).map fun (taken, rest) => (c :: taken, rest) else none

inductive PatternPiece where
  /-- A fixed character, a letter in either case. -/
  | fixed (c : Char)
  | blanks
  | field (f : MomentField)
  deriving DecidableEq

abbrev Pattern := List PatternPiece

namespace Pattern

def read? : Pattern → List Char → Option (List (MomentField × Nat) × List Char)
  | [], cs => some ([], cs)
  | .fixed _ :: _, [] => none
  | .fixed x :: pieces, c :: cs => if x.toLower = c.toLower then read? pieces cs else none
  | .blanks :: pieces, cs =>
    let run := (cs.takeWhile isBlank).length
    (List.range run).reverse.findSome? fun more => read? pieces (cs.drop (more + 1))
  | .field f :: pieces, cs =>
    f.forms.findSome? fun form =>
      (takeForm? form cs).bind fun (taken, rest) =>
        (read? pieces rest).map fun (numbers, rest) => ((f, digitsValue taken) :: numbers, rest)

def numberOf (numbers : List (MomentField × Nat)) (f : MomentField) (missing : Nat) : Nat :=
  (numbers.lookup f).getD missing

def moment? (pattern : Pattern) (cs : List Char) : Option Moment :=
  match pattern.read? cs with
  | some (numbers, []) =>
    match Date.of? (numberOf numbers .year 1900) (numberOf numbers .month 1)
        (numberOf numbers .day 1),
      TimeOfDay.of? (numberOf numbers .hour 0) (numberOf numbers .minute 0)
        (numberOf numbers .second 0) with
    | some date, some time => some ⟨date, time⟩
    | _, _ => none
  | _ => none

def dashed : Pattern :=
  [.field .year, .fixed '-', .field .month, .fixed '-', .field .day, .blanks, .field .hour,
    .fixed ':', .field .minute, .fixed ':', .field .second]

def compact : Pattern :=
  [.field .year, .field .month, .field .day, .fixed 'T', .field .hour, .field .minute,
    .field .second]

def colonDay : Pattern :=
  [.field .year, .fixed ':', .field .month, .fixed ':', .field .day]

end Pattern

end MediaIndex
