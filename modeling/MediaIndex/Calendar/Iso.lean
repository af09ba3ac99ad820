import MediaIndex.Calendar.Compact

/-!
# Instants as text

The written form of an instant in universal time, as `2024-01-31T23:59:59+00:00`.
-/

namespace MediaIndex

/-- Year, month and day of a day counted from the first of January 1970. Years are counted from
March, so that the leap day is the last of a year, and in spans of 400 that all have the same
length. -/
def civilOfEpochDay (epochDay : Nat) : Nat × Nat × Nat :=
  let day := epochDay + 719468
  let span := day / 146097
  let dayOfSpan := day % 146097
  let yearOfSpan := (dayOfSpan - dayOfSpan / 1460 + dayOfSpan / 36524 - dayOfSpan / 146096) / 365
  let dayOfYear := dayOfSpan - (365 * yearOfSpan + yearOfSpan / 4 - yearOfSpan / 100)
  let monthFromMarch := (5 * dayOfYear + 2) / 153
  let dayOfMonth := dayOfYear - (153 * monthFromMarch + 2) / 5 + 1
  let month := if monthFromMarch < 10 then monthFromMarch + 3 else monthFromMarch - 9
  let year := yearOfSpan + 400 * span + (if month ≤ 2 then 1 else 0)
  (year, month, dayOfMonth)

def isoText (seconds : Nat) : String :=
  let (year, month, day) := civilOfEpochDay (seconds / 86400)
  let rest := seconds % 86400
  let two (n : Nat) : String := String.ofList (twoDigits n)
  Nat.repr year ++ "-" ++ two month ++ "-" ++ two day ++ "T" ++ two (rest / 3600) ++ ":" ++
    two (rest / 60 % 60) ++ ":" ++ two (rest % 60) ++ "+00:00"

end MediaIndex
