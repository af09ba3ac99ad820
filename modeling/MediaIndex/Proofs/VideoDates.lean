import MediaIndex.Media.Video
import MediaIndex.Proofs.CompactStamps

/-!
# Dates of videos, written and read back

The date of a video is written in the compact form and read back. From the year 1000 on that gives
the date again. The year is written without leading zeros, so before that the form is shorter, and
the characters that follow the year are read as part of it: the day comes back in another year, or
not at all. So a video has the date of its track unless that date is before 1000 and comes back as
one after the start of 1970.
-/

namespace MediaIndex

open Text

/-! ## The time of day -/

theorem digitsValue_twoDigits {n : Nat} (h : n < 100) : digitsValue (twoDigits n) = n := by
  rw [twoDigits, digitsValue_pair (by omega) (Nat.mod_lt n (by decide))]
  exact Nat.div_add_mod n 10

/-- The part of the compact form that starts with the letter. -/
def clockText (t : TimeOfDay) : List Char :=
  'T' :: (twoDigits t.hour ++ (twoDigits t.minute ++ twoDigits t.second))

def clockNumbers (t : TimeOfDay) : List (MomentField × Nat) :=
  [(.hour, t.hour), (.minute, t.minute), (.second, t.second)]

namespace Pattern

def clock : Pattern := [.fixed 'T', .field .hour, .field .minute, .field .second]

variable {pieces : Pattern} {numbers : List (MomentField × Nat)}
  {rest left : List Char}

/-- Two digits in the bounds of a field are taken together if what follows can then be read. -/
theorem read?_twoDigits (f : MomentField) (hf : f ≠ .year) {n : Nat} (hLeast : f.least ≤ n)
    (hGreatest : n ≤ f.greatest) (hRest : read? pieces rest = some (numbers, left)) :
    read? (.field f :: pieces) (twoDigits n ++ rest) = some ((f, n) :: numbers, left) := by
  have hLt : n < 100 := hGreatest.trans_lt (by cases f <;> first | exact absurd rfl hf | decide)
  have hWrites : f.Writes (twoDigits n) := by
    rw [twoDigits, MomentField.writes_digits_iff f hf (by omega) (Nat.mod_lt n (by decide)),
      Nat.div_add_mod n 10]
    exact ⟨hLeast, hGreatest⟩
  have hPart : readPart? f (twoDigits n) pieces rest = some ((f, n) :: numbers, left) :=
    readPart?_eq_some_iff.mpr ⟨hWrites, numbers, left, hRest, by rw [digitsValue_twoDigits hLt]⟩
  rw [twoDigits] at hPart ⊢
  rw [List.cons_append, List.singleton_append, read?_field_cons_cons f hf, hPart]
  rfl

theorem read?_clock (t : TimeOfDay) : clock.read? (clockText t) = some (clockNumbers t, []) := by
  have hSecond : read? [.field .second] (twoDigits t.second ++ []) = some ([(.second, t.second)], []) :=
    read?_twoDigits .second nofun (Nat.zero_le _) (t.second_lt.le.trans (by decide)) rfl
  have hMinute := read?_twoDigits .minute nofun (Nat.zero_le _) (Nat.le_of_lt_succ t.minute_lt) hSecond
  have hHour := read?_twoDigits .hour nofun (Nat.zero_le _) (Nat.le_of_lt_succ t.hour_lt) hMinute
  rw [List.append_nil] at hHour
  rw [clock, clockText, read?, if_pos rfl, hHour]
  rfl

theorem read?_clock_eq_none {c : Char} (cs : List Char) (h : 'T'.toLower ≠ c.toLower) :
    clock.read? (c :: cs) = none := by
  rw [clock, read?, if_neg h]

theorem toLower_digitChar_ne {a : Nat} (h : a < 10) : 'T'.toLower ≠ (Nat.digitChar a).toLower := by
  have hAll : ∀ a : Fin 10, 'T'.toLower ≠ (Nat.digitChar a).toLower := by decide
  exact hAll ⟨a, h⟩

/-! ## Fields of which a digit is missing -/

theorem readPart?_digit (f : MomentField) (hf : f ≠ .year) {a : Nat} (h : a < 10) (pieces : Pattern)
    (tail : List Char) : readPart? f [Nat.digitChar a] pieces tail =
      if f.least ≤ a then (read? pieces tail).map fun result => ((f, a) :: result.1, result.2)
      else none := by
  simp only [readPart?, MomentField.writes_digit_iff f hf h, digitsValue, List.foldl_cons,
    List.foldl_nil, digitValue?_digitChar h, Nat.mul_zero, Nat.zero_add]

theorem readPart?_digits (f : MomentField) (hf : f ≠ .year) {a b : Nat} (ha : a < 10) (hb : b < 10)
    (pieces : Pattern) (tail : List Char) :
    readPart? f [Nat.digitChar a, Nat.digitChar b] pieces tail =
      if f.least ≤ 10 * a + b ∧ 10 * a + b ≤ f.greatest then
        (read? pieces tail).map fun result => ((f, 10 * a + b) :: result.1, result.2)
      else none := by
  simp only [readPart?, MomentField.writes_digits_iff f hf ha hb, digitsValue_pair ha hb]

theorem readPart?_letter (f : MomentField) {part : List Char} (h : 'T' ∈ part) (pieces : Pattern)
    (tail : List Char) : readPart? f part pieces tail = none := by
  rw [readPart?, if_neg fun hWrites => hWrites.notMem_letter h]

theorem read?_field_letter (f : MomentField) (hf : f ≠ .year) (pieces : Pattern) (t : TimeOfDay) :
    read? (.field f :: pieces) (clockText t) = none := by
  rw [clockText, twoDigits, List.cons_append, read?_field_cons_cons f hf,
    readPart?_letter f List.mem_cons_self, readPart?_letter f List.mem_cons_self, Option.none_or]

theorem read?_field_digit (f : MomentField) (hf : f ≠ .year) {a : Nat} (h : a < 10) (pieces : Pattern)
    (t : TimeOfDay) : read? (.field f :: pieces) (Nat.digitChar a :: clockText t) =
      if f.least ≤ a then
        (read? pieces (clockText t)).map fun result => ((f, a) :: result.1, result.2)
      else none := by
  rw [clockText, read?_field_cons_cons f hf,
    readPart?_letter f (List.mem_cons_of_mem _ List.mem_cons_self), Option.none_or,
    readPart?_digit f hf h]

theorem read?_day_digit (t : TimeOfDay) {a : Nat} (h : a < 10) :
    read? (.field .day :: clock) (Nat.digitChar a :: clockText t) =
      if 1 ≤ a then some ((.day, a) :: clockNumbers t, []) else none := by
  rw [read?_field_digit .day nofun h, read?_clock]
  rfl

theorem read?_day_digits (t : TimeOfDay) {a b : Nat} (ha : a < 10) (hb : b < 10) :
    read? (.field .day :: clock) (Nat.digitChar a :: Nat.digitChar b :: clockText t) =
      if 1 ≤ 10 * a + b ∧ 10 * a + b ≤ 31 then some ((.day, 10 * a + b) :: clockNumbers t, [])
      else none := by
  rw [read?_field_cons_cons .day nofun, readPart?_digits .day nofun ha hb,
    readPart?_digit .day nofun ha, read?_clock, read?_clock_eq_none _ (toLower_digitChar_ne hb),
    Option.map_none, ite_self, Option.or_none]
  rfl

theorem read?_month_one (t : TimeOfDay) {a : Nat} (h : a < 10) :
    read? (.field .month :: .field .day :: clock) (Nat.digitChar a :: clockText t) = none := by
  rw [read?_field_digit .month nofun h, read?_field_letter .day nofun, Option.map_none, ite_self]

/-- Month and day of which two digits are left have one each. -/
theorem read?_month_two (t : TimeOfDay) {a b : Nat} (ha : a < 10) (hb : b < 10) :
    read? (.field .month :: .field .day :: clock) (Nat.digitChar a :: Nat.digitChar b :: clockText t) =
      if 1 ≤ a ∧ 1 ≤ b then some ((.month, a) :: (.day, b) :: clockNumbers t, []) else none := by
  rw [read?_field_cons_cons .month nofun, readPart?_digits .month nofun ha hb,
    readPart?_digit .month nofun ha, read?_day_digit t hb,
    read?_field_letter .day nofun, Option.map_none, ite_self,
    Option.none_or]
  by_cases hMonth : 1 ≤ a <;> by_cases hDay : 1 ≤ b <;> simp [MomentField.least, hMonth, hDay]

/-- Of three digits the month takes two if they are in its bounds and the day can have the third. -/
theorem read?_month_three (t : TimeOfDay) {a b c : Nat} (ha : a < 10) (hb : b < 10) (hc : c < 10) :
    read? (.field .month :: .field .day :: clock)
        (Nat.digitChar a :: Nat.digitChar b :: Nat.digitChar c :: clockText t) =
      if (1 ≤ 10 * a + b ∧ 10 * a + b ≤ 12) ∧ 1 ≤ c then
        some ((.month, 10 * a + b) :: (.day, c) :: clockNumbers t, [])
      else if 1 ≤ a ∧ 1 ≤ 10 * b + c ∧ 10 * b + c ≤ 31 then
        some ((.month, a) :: (.day, 10 * b + c) :: clockNumbers t, [])
      else none := by
  rw [read?_field_cons_cons .month nofun, readPart?_digits .month nofun ha hb,
    readPart?_digit .month nofun ha, read?_day_digit t hc, read?_day_digits t hb hc]
  by_cases hMonths : 1 ≤ 10 * a + b ∧ 10 * a + b ≤ 12 <;> by_cases hMonth : 1 ≤ a <;>
    by_cases hDay : 1 ≤ c <;> by_cases hDays : 1 ≤ 10 * b + c ∧ 10 * b + c ≤ 31 <;>
    simp [MomentField.least, MomentField.greatest, hMonths, hMonth, hDay, hDays]

end Pattern

/-! ## The date read back -/

namespace Date

/-- The day that the compact form of a day is read back as. -/
def readBack? (d : Date) : Option Date :=
  if 1000 ≤ d.year then some d
  else if d.year < 10 then none
  else if d.year < 100 then of? (100 * d.year + d.month) (d.day / 10) (d.day % 10)
  else
    let year := 10 * d.year + d.month / 10
    let month := 10 * (d.month % 10) + d.day / 10
    if (1 ≤ month ∧ month ≤ 12) ∧ 1 ≤ d.day % 10 then of? year month (d.day % 10)
    else of? year (d.month % 10) d.day

end Date

theorem digitsValue_year {a b c d : Nat} (ha : a < 10) (hb : b < 10) (hc : c < 10) (hd : d < 10) :
    digitsValue [Nat.digitChar a, Nat.digitChar b, Nat.digitChar c, Nat.digitChar d] =
      1000 * a + 100 * b + 10 * c + d := by
  simp only [digitsValue, List.foldl_cons, List.foldl_nil, digitValue?_digitChar, ha, hb, hc, hd]
  omega

namespace Pattern

/-- The year takes the first four digits, whichever fields they were written for. -/
theorem read?_compact {a b c d : Nat} (ha : a < 10) (hb : b < 10) (hc : c < 10) (hd : d < 10)
    (rest : List Char) :
    compact.read? (Nat.digitChar a :: Nat.digitChar b :: Nat.digitChar c :: Nat.digitChar d :: rest) =
      (read? (.field .month :: .field .day :: clock) rest).map fun result =>
        ((.year, 1000 * a + 100 * b + 10 * c + d) :: result.1, result.2) := by
  rw [← digitsValue_year ha hb hc hd]
  apply read?_year_cons
  simp only [List.forall_mem_cons]
  exact ⟨isDigit_digitChar ha, isDigit_digitChar hb, isDigit_digitChar hc, isDigit_digitChar hd, nofun⟩

theorem moment?_of_numbers {pattern : Pattern} {cs : List Char} {numbers : List (MomentField × Nat)}
    {t : TimeOfDay} (h : pattern.read? cs = some (numbers, []))
    (hTime : TimeOfDay.of? (numberOf numbers .hour 0) (numberOf numbers .minute 0)
      (numberOf numbers .second 0) = some t) :
    pattern.moment? cs = (Date.of? (numberOf numbers .year 1900) (numberOf numbers .month 1)
      (numberOf numbers .day 1)).map fun date => ⟨date, t⟩ := by
  simp only [moment?, h, hTime]
  cases Date.of? (numberOf numbers .year 1900) (numberOf numbers .month 1)
    (numberOf numbers .day 1) <;> rfl

theorem moment?_of_read? {cs : List Char} {year month day : Nat} {t : TimeOfDay}
    (h : compact.read? cs =
      some ((.year, year) :: (.month, month) :: (.day, day) :: clockNumbers t, [])) :
    compact.moment? cs = (Date.of? year month day).map fun date => ⟨date, t⟩ :=
  moment?_of_numbers h (TimeOfDay.of?_eq_some_iff.mpr ⟨rfl, rfl, rfl⟩)

theorem moment?_of_unread {cs : List Char} (h : compact.read? cs = none) :
    compact.moment? cs = none := by
  rw [moment?, h]

end Pattern

theorem compact_eq (m : Moment) : m.compact = Nat.toDigits 10 m.date.year ++
    (twoDigits m.date.month ++ (twoDigits m.date.day ++ clockText m.time)) := by
  simp only [Moment.compact, clockText, List.append_assoc, List.cons_append]

theorem length_compact_le (m : Moment) : m.compact.length ≤ compactLength := by
  have hYear : (Nat.toDigits 10 m.date.year).length ≤ 4 := by
    rw [Nat.length_toDigits_le_iff (by decide) (by decide)]
    exact Nat.lt_succ_of_le m.date.year_valid.2
  simp only [compact_eq, clockText, twoDigits, List.length_append, List.length_cons, List.length_nil,
    compactLength]
  omega

theorem toDigits_cons {n : Nat} (h : 10 ≤ n) :
    Nat.toDigits 10 n = Nat.toDigits 10 (n / 10) ++ [Nat.digitChar (n % 10)] := by
  rw [Nat.toDigits_eq_if (by decide), if_neg (Nat.not_lt.mpr h)]

namespace Date

variable (d : Date) (t : TimeOfDay)

theorem day_lt : d.day < 100 :=
  (d.day_valid.2.trans (daysInMonth_le _ _)).trans_lt (by decide)

theorem of?_self : of? d.year d.month d.day = some d :=
  of?_eq_some_iff.mpr ⟨rfl, rfl, rfl⟩

theorem moment?_year_one (h : d.year < 10) : Pattern.compact.moment? (Moment.compact ⟨d, t⟩) = none := by
  have hYear : Nat.toDigits 10 d.year = [Nat.digitChar d.year] := Nat.toDigits_of_lt_base h
  have hMonth := d.month_valid.2
  have hDay := d.day_lt
  apply Pattern.moment?_of_unread
  simp only [compact_eq, hYear, twoDigits, List.cons_append, List.nil_append]
  rw [Pattern.read?_compact h (by omega) (by omega) (by omega), Pattern.read?_month_one t (by omega)]
  rfl

theorem moment?_year_two (hLow : 10 ≤ d.year) (hHigh : d.year < 100) :
    Pattern.compact.moment? (Moment.compact ⟨d, t⟩) =
      (of? (100 * d.year + d.month) (d.day / 10) (d.day % 10)).map fun date => ⟨date, t⟩ := by
  have hYear : Nat.toDigits 10 d.year = [Nat.digitChar (d.year / 10), Nat.digitChar (d.year % 10)] := by
    rw [toDigits_cons hLow, Nat.toDigits_of_lt_base (by omega)]
    rfl
  have hMonth := d.month_valid.2
  have hDay := d.day_lt
  have hRead : Pattern.compact.read? (Moment.compact ⟨d, t⟩) =
      if 1 ≤ d.day / 10 ∧ 1 ≤ d.day % 10 then
        some ((.year, 100 * d.year + d.month) :: (.month, d.day / 10) :: (.day, d.day % 10) ::
          clockNumbers t, [])
      else none := by
    have hValue : 1000 * (d.year / 10) + 100 * (d.year % 10) + 10 * (d.month / 10) + d.month % 10 =
        100 * d.year + d.month := by omega
    simp only [compact_eq, hYear, twoDigits, List.cons_append, List.nil_append]
    rw [Pattern.read?_compact (by omega) (by omega) (by omega) (by omega), hValue,
      Pattern.read?_month_two t (by omega) (by omega)]
    split <;> rfl
  by_cases hDigits : 1 ≤ d.day / 10 ∧ 1 ≤ d.day % 10
  · rw [if_pos hDigits] at hRead
    exact Pattern.moment?_of_read? hRead
  · rw [if_neg hDigits] at hRead
    rw [Pattern.moment?_of_unread hRead, of?, dif_neg (by omega)]
    rfl

theorem moment?_year_three (hLow : 100 ≤ d.year) (hHigh : d.year < 1000) :
    Pattern.compact.moment? (Moment.compact ⟨d, t⟩) =
      (if (1 ≤ 10 * (d.month % 10) + d.day / 10 ∧ 10 * (d.month % 10) + d.day / 10 ≤ 12) ∧
          1 ≤ d.day % 10 then
        of? (10 * d.year + d.month / 10) (10 * (d.month % 10) + d.day / 10) (d.day % 10)
      else of? (10 * d.year + d.month / 10) (d.month % 10) d.day).map fun date => ⟨date, t⟩ := by
  have hYear : Nat.toDigits 10 d.year = [Nat.digitChar (d.year / 10 / 10),
      Nat.digitChar (d.year / 10 % 10), Nat.digitChar (d.year % 10)] := by
    rw [toDigits_cons (by omega), toDigits_cons (by omega), Nat.toDigits_of_lt_base (by omega)]
    rfl
  have hMonth := d.month_valid.2
  have hDay := d.day_lt
  have hDayLe : d.day ≤ 31 := d.day_valid.2.trans (daysInMonth_le _ _)
  have hValue : 1000 * (d.year / 10 / 10) + 100 * (d.year / 10 % 10) + 10 * (d.year % 10) +
      d.month / 10 = 10 * d.year + d.month / 10 := by omega
  have hRead : Pattern.compact.read? (Moment.compact ⟨d, t⟩) =
      if (1 ≤ 10 * (d.month % 10) + d.day / 10 ∧ 10 * (d.month % 10) + d.day / 10 ≤ 12) ∧
          1 ≤ d.day % 10 then
        some ((.year, 10 * d.year + d.month / 10) :: (.month, 10 * (d.month % 10) + d.day / 10) ::
          (.day, d.day % 10) :: clockNumbers t, [])
      else if 1 ≤ d.month % 10 ∧ 1 ≤ d.day ∧ d.day ≤ 31 then
        some ((.year, 10 * d.year + d.month / 10) :: (.month, d.month % 10) :: (.day, d.day) ::
          clockNumbers t, [])
      else none := by
    simp only [compact_eq, hYear, twoDigits, List.cons_append, List.nil_append]
    rw [Pattern.read?_compact (by omega) (by omega) (by omega) (by omega), hValue,
      Pattern.read?_month_three t (by omega) (by omega) (by omega), Nat.div_add_mod d.day 10]
    split
    · rfl
    · split <;> rfl
  split at hRead
  · next hShort => rw [Pattern.moment?_of_read? hRead, if_pos hShort]
  · next hShort =>
    rw [if_neg hShort]
    split at hRead
    · rw [Pattern.moment?_of_read? hRead]
    · next hWhole =>
      have hZero : d.month % 10 = 0 := by
        have := d.day_valid.1
        omega
      rw [Pattern.moment?_of_unread hRead, of?, dif_neg (by omega)]
      rfl

theorem moment?_year_four (h : 1000 ≤ d.year) :
    Pattern.compact.moment? (Moment.compact ⟨d, t⟩) = some ⟨d, t⟩ := by
  have hLast := d.year_valid.2
  have hYear : Nat.toDigits 10 d.year = [Nat.digitChar (d.year / 10 / 10 / 10),
      Nat.digitChar (d.year / 10 / 10 % 10), Nat.digitChar (d.year / 10 % 10),
      Nat.digitChar (d.year % 10)] := by
    rw [toDigits_cons (by omega), toDigits_cons (by omega), toDigits_cons (by omega),
      Nat.toDigits_of_lt_base (by omega)]
    rfl
  have hDay := Pattern.read?_twoDigits .day nofun d.day_valid.1
    (d.day_valid.2.trans (daysInMonth_le _ _)) (Pattern.read?_clock t)
  have hMonth := Pattern.read?_twoDigits .month nofun d.month_valid.1 d.month_valid.2 hDay
  have hValue : 1000 * (d.year / 10 / 10 / 10) + 100 * (d.year / 10 / 10 % 10) +
      10 * (d.year / 10 % 10) + d.year % 10 = d.year := by omega
  have hRead : Pattern.compact.read? (Moment.compact ⟨d, t⟩) =
      some ((.year, d.year) :: (.month, d.month) :: (.day, d.day) :: clockNumbers t, []) := by
    simp only [compact_eq, hYear, List.cons_append, List.nil_append]
    rw [Pattern.read?_compact (by omega) (by omega) (by omega) (by omega), hMonth, hValue]
    rfl
  rw [Pattern.moment?_of_read? hRead, of?_self]
  rfl

end Date

theorem compactMoment?_compact (m : Moment) :
    compactMoment? m.compact = m.date.readBack?.map fun date => ⟨date, m.time⟩ := by
  obtain ⟨d, t⟩ := m
  rw [compactMoment?, List.take_of_length_le (length_compact_le _), Date.readBack?]
  by_cases hFour : 1000 ≤ d.year
  · rw [if_pos hFour]
    exact d.moment?_year_four t hFour
  rw [if_neg hFour]
  by_cases hOne : d.year < 10
  · rw [if_pos hOne]
    exact d.moment?_year_one t hOne
  rw [if_neg hOne]
  by_cases hTwo : d.year < 100
  · rw [if_pos hTwo]
    exact d.moment?_year_two t (Nat.le_of_not_lt hOne) hTwo
  · rw [if_neg hTwo]
    exact d.moment?_year_three t (Nat.le_of_not_lt hTwo) (Nat.lt_of_not_le hFour)

/-! ## Early years -/

theorem daysBeforeMonth_le (year month : Nat) : Date.daysBeforeMonth year month ≤ 31 * (month - 1) := by
  unfold Date.daysBeforeMonth
  induction month - 1 with
  | zero => exact Nat.le_refl 0
  | succ n ih =>
    rw [List.range_succ, List.foldl_append, List.foldl_cons, List.foldl_nil]
    have := daysInMonth_le year (n + 1)
    omega

theorem laterMillis_of_early {m : Moment} (h : m.date.year < 1000) (otherwise : Option Int) :
    laterMillis (some m) otherwise = otherwise := by
  refine laterMillis_eq_otherwise_iff.mpr fun hLater => absurd hLater ?_
  have hMonths := daysBeforeMonth_le m.date.year m.date.month
  have hMonth := m.date.month_valid.2
  have hDay := m.date.day_lt
  have hSeconds := m.time.seconds_lt
  simp only [Moment.epochMillis, Moment.epochSeconds, Date.epochDay, Date.daysBeforeYear]
  omega

namespace Media

/-- The moment that a date field of the track writes, if it holds one. -/
def taggedMoment? (general : Tags) (field : String) : Option Moment :=
  match general.value field with
  | .text s => dateFieldMoment? s.toList
  | _ => none

section
variable {general : Tags}

/-- Of date fields with nothing but text the first that can be read counts. -/
theorem dateMoment?_of_texts {fields : List String}
    (hTexts : ∀ field ∈ fields, general.value field = .null ∨ ∃ s, general.value field = .text s) :
    dateMoment? general fields = .ok (fields.findSome? (taggedMoment? general)) := by
  induction fields with
  | nil => rfl
  | cons field fields ih =>
    rw [List.forall_mem_cons] at hTexts
    have hRest := ih hTexts.2
    rcases hTexts.1 with hNull | ⟨s, hText⟩
    · simp [dateMoment?, taggedMoment?, hNull, Value.isGiven, hRest]
    · have hHere : taggedMoment? general field = dateFieldMoment? s.toList := by
        rw [taggedMoment?, hText]
      rw [List.findSome?_cons, hHere, dateMoment?, hText, hRest]
      by_cases hEmpty : s = ""
      · subst hEmpty
        rfl
      · have hGiven : (Value.text s).isGiven = true := by simp [Value.isGiven, hEmpty]
        have hShown : (Value.text s).shown = .ok s := rfl
        simp only [hGiven, hShown, Bool.not_true, Bool.false_eq_true, if_false, bind, Except.bind]
        cases dateFieldMoment? s.toList <;> rfl

/-- The track's date survives being written and read back, with this other value, exactly if an
early date does not come back as one after the start of 1970, or as the other value. -/
theorem videoMillis_eq_iff {otherwise : Option Int}
    (hTexts : ∀ field ∈ dateFields, general.value field = .null ∨ ∃ s, general.value field = .text s) :
    videoMillis general otherwise =
        .ok (laterMillis (dateFields.findSome? (taggedMoment? general)) otherwise) ↔
      ∀ t, dateFields.findSome? (taggedMoment? general) = some t → t.date.year < 1000 →
        ∀ d, t.date.readBack? = some d → 0 < (Moment.mk d t.time).epochMillis →
          otherwise = some (Moment.mk d t.time).epochMillis := by
  have hMillis : videoMillis general otherwise =
      .ok (laterMillis ((dateFields.findSome? (taggedMoment? general)).bind fun t =>
        t.date.readBack?.map fun d => ⟨d, t.time⟩) otherwise) := by
    rw [videoMillis, compactDate?, dateMoment?_of_texts hTexts]
    cases dateFields.findSome? (taggedMoment? general) with
    | none => rfl
    | some t =>
      rw [Option.bind_some, ← compactMoment?_compact]
      rfl
  rw [hMillis, Except.ok.injEq]
  cases dateFields.findSome? (taggedMoment? general) with
  | none => exact iff_of_true rfl nofun
  | some t =>
    simp only [Option.bind_some, Option.some.injEq, forall_eq']
    by_cases hYear : t.date.year < 1000
    · rw [laterMillis_of_early hYear]
      cases t.date.readBack? with
      | none => exact iff_of_true rfl nofun
      | some d =>
        rw [Option.map_some, laterMillis_eq_otherwise_iff]
        exact ⟨fun h _ _ hd => (Option.some.inj hd) ▸ h, fun h => h hYear d rfl⟩
    · have hBack : t.date.readBack? = some t.date := if_pos (Nat.le_of_not_lt hYear)
      rw [hBack]
      exact iff_of_true rfl fun hEarly => absurd hEarly hYear

/-- The last of January 999 comes back as that day of 9990. -/
theorem videoMillis_eq_iff_early :
    videoMillis [("recorded_date", .text "0999-01-31 23:59:59")] (some 5) ≠ .ok (some 5) := by
  intro hSame
  have hTexts : ∀ field ∈ dateFields,
      Tags.value [("recorded_date", .text "0999-01-31 23:59:59")] field = .null ∨
        ∃ s, Tags.value [("recorded_date", .text "0999-01-31 23:59:59")] field = .text s := by
    simp only [dateFields, List.forall_mem_cons]
    exact ⟨.inr ⟨_, rfl⟩, .inl rfl, .inl rfl, nofun⟩
  have hFound : dateFields.findSome?
      (taggedMoment? [("recorded_date", .text "0999-01-31 23:59:59")]) =
        some ⟨⟨999, 1, 31, by decide, by decide, by decide⟩,
          ⟨23, 59, 59, by decide, by decide, by decide⟩⟩ := by decide
  have hEarly := (videoMillis_eq_iff hTexts).mp (by
    rw [hSame, hFound]
    rfl) _ hFound (by decide) ⟨9990, 1, 31, by decide, by decide, by decide⟩ rfl (by decide)
  exact absurd hEarly (by decide)

end

end Media

end MediaIndex
