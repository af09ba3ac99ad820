import MediaIndex.Calendar.Pattern

/-!
# The compact form of a moment

Tags hold moments as `20200131T235959`. Such a text has fifteen characters; whatever follows them is
ignored. The year is written without leading zeros, so the form of a year before 1000 is shorter.
-/

namespace MediaIndex

def compactLength : Nat := 15

def twoDigits (n : Nat) : List Char :=
  [Nat.digitChar (n / 10), Nat.digitChar (n % 10)]

def Moment.compact (m : Moment) : List Char :=
  Nat.toDigits 10 m.date.year ++ twoDigits m.date.month ++ twoDigits m.date.day ++
    'T' :: twoDigits m.time.hour ++ twoDigits m.time.minute ++ twoDigits m.time.second

def compactMoment? (cs : List Char) : Option Moment :=
  Pattern.compact.moment? (cs.take compactLength)

/-- The instant of a compact text in milliseconds. A text that is missing or no moment, or a moment
that is not after the start of 1970, gives the other value. -/
def compactMillis (text : Option (List Char)) (otherwise : Option Int) : Option Int :=
  match text.bind compactMoment? with
  | some m => if 0 < m.epochMillis then some m.epochMillis else otherwise
  | none => otherwise

end MediaIndex
