/-!
# Moments

Days of the calendar and times of day, both valid by construction, and the instant they name in
universal time, counted from the start of 1970.
-/

namespace MediaIndex

def isLeapYear (year : Nat) : Bool :=
  year % 4 == 0 && (year % 100 != 0 || year % 400 == 0)

def daysInMonth (year month : Nat) : Nat :=
  if month = 2 then (if isLeapYear year then 29 else 28)
  else if month = 4 ∨ month = 6 ∨ month = 9 ∨ month = 11 then 30
  else 31

structure Date where
  year : Nat
  month : Nat
  day : Nat
  year_valid : 1 ≤ year ∧ year ≤ 9999
  month_valid : 1 ≤ month ∧ month ≤ 12
  day_valid : 1 ≤ day ∧ day ≤ daysInMonth year month
  deriving DecidableEq

structure TimeOfDay where
  hour : Nat
  minute : Nat
  second : Nat
  hour_lt : hour < 24
  minute_lt : minute < 60
  second_lt : second < 60
  deriving DecidableEq

structure Moment where
  date : Date
  time : TimeOfDay
  deriving DecidableEq

namespace Date

def of? (year month day : Nat) : Option Date :=
  if h : (1 ≤ year ∧ year ≤ 9999) ∧ (1 ≤ month ∧ month ≤ 12) ∧
      1 ≤ day ∧ day ≤ daysInMonth year month then
    some ⟨year, month, day, h.1, h.2.1, h.2.2⟩
  else none

def daysBeforeYear (year : Nat) : Nat :=
  let past := year - 1
  365 * past + past / 4 - past / 100 + past / 400

def daysBeforeMonth (year month : Nat) : Nat :=
  (List.range (month - 1)).foldl (fun days m => days + daysInMonth year (m + 1)) 0

def epochDay (d : Date) : Int :=
  (daysBeforeYear d.year + daysBeforeMonth d.year d.month + (d.day - 1) : Nat) -
    (daysBeforeYear 1970 : Int)

end Date

namespace TimeOfDay

def of? (hour minute second : Nat) : Option TimeOfDay :=
  if h : hour < 24 ∧ minute < 60 ∧ second < 60 then
    some ⟨hour, minute, second, h.1, h.2.1, h.2.2⟩
  else none

def seconds (t : TimeOfDay) : Nat :=
  3600 * t.hour + 60 * t.minute + t.second

theorem seconds_lt (t : TimeOfDay) : t.seconds < 86400 := by
  have := t.hour_lt
  have := t.minute_lt
  have := t.second_lt
  unfold seconds
  omega

end TimeOfDay

namespace Moment

def epochSeconds (m : Moment) : Int :=
  86400 * m.date.epochDay + m.time.seconds

def epochMillis (m : Moment) : Int :=
  1000 * m.epochSeconds

end Moment

end MediaIndex
