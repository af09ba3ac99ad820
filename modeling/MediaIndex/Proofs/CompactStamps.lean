import MediaIndex.Calendar.Compact
import MediaIndex.Proofs.PatternReading

/-!
# Stamps and what else is read as one

A stamp is eight plain digits, the letter and six plain digits. Every stamp is read as what it says.
Other texts are read as well: a field may be one digit short, a day may have a blank in front, and
some digits may be of another script. So what a text gives is what a stamp gives exactly if no such
spelling of its first fifteen characters names a moment after the start of 1970.
-/

namespace MediaIndex

open Text

/-! ## Digits -/

theorem exists_digitChar {c : Char} (h : c.isDigit = true) : ∃ a < 10, c = Nat.digitChar a := by
  obtain ⟨hLow, hHigh⟩ := Char.isDigit_iff_toNat.mp h
  have hZero : '0'.toNat = 48 := rfl
  have hNine : '9'.toNat = 57 := rfl
  refine ⟨c.toNat - 48, by omega, Char.toNat_inj.mp ?_⟩
  rw [Nat.toNat_digitChar_of_lt_ten (by omega)]
  omega

theorem digitValue?_digitChar {a : Nat} (h : a < 10) : digitValue? (Nat.digitChar a) = some a := by
  have hAll : ∀ a : Fin 10, digitValue? (Nat.digitChar a) = some a.val := by decide
  exact hAll ⟨a, h⟩

theorem digitsValue_pair {a b : Nat} (ha : a < 10) (hb : b < 10) :
    digitsValue [Nat.digitChar a, Nat.digitChar b] = 10 * a + b := by
  simp [digitsValue, digitValue?_digitChar ha, digitValue?_digitChar hb]

theorem isDigit_digitChar {a : Nat} (h : a < 10) : isDigit (Nat.digitChar a) = true := by
  rw [isDigit, digitValue?_digitChar h]
  rfl

theorem isDigit_of_plain {c : Char} (h : c.isDigit = true) : isDigit c = true := by
  obtain ⟨a, ha, rfl⟩ := exists_digitChar h
  exact isDigit_digitChar ha

namespace MomentField

def least : MomentField → Nat
  | month | day => 1
  | _ => 0

def greatest : MomentField → Nat
  | year => 9999
  | month => 12
  | day => 31
  | hour => 23
  | minute => 59
  | second => 61

variable {f : MomentField} {part : List Char}

theorem writes_digits_iff (f : MomentField) (hf : f ≠ .year) {a b : Nat} (ha : a < 10) (hb : b < 10) :
    f.Writes [Nat.digitChar a, Nat.digitChar b] ↔
      f.least ≤ 10 * a + b ∧ 10 * a + b ≤ f.greatest := by
  have hAll : ∀ a b : Fin 10, f.Writes [Nat.digitChar a, Nat.digitChar b] ↔
      f.least ≤ 10 * a.val + b.val ∧ 10 * a.val + b.val ≤ f.greatest := by
    cases f <;> first | exact absurd rfl hf | decide
  exact hAll ⟨a, ha⟩ ⟨b, hb⟩

theorem writes_digit_iff (f : MomentField) (hf : f ≠ .year) {a : Nat} (ha : a < 10) :
    f.Writes [Nat.digitChar a] ↔ f.least ≤ a := by
  have hAll : ∀ a : Fin 10, f.Writes [Nat.digitChar a] ↔ f.least ≤ a.val := by
    cases f <;> first | exact absurd rfl hf | decide
  exact hAll ⟨a, ha⟩

theorem writes_of_bounds (hf : f ≠ .year) (hLength : part.length = 2)
    (hDigits : ∀ c ∈ part, c.isDigit = true) (hLeast : f.least ≤ digitsValue part)
    (hGreatest : digitsValue part ≤ f.greatest) : f.Writes part := by
  obtain ⟨c, d, rfl⟩ := List.length_eq_two.mp hLength
  obtain ⟨a, ha, rfl⟩ := exists_digitChar (hDigits _ List.mem_cons_self)
  obtain ⟨b, hb, rfl⟩ := exists_digitChar (hDigits _ (List.mem_cons_of_mem _ List.mem_cons_self))
  rw [digitsValue_pair ha hb] at hLeast hGreatest
  exact (writes_digits_iff f hf ha hb).mpr ⟨hLeast, hGreatest⟩

/-- No field takes the letter that stands between date and time. -/
theorem Writes.notMem_letter (h : f.Writes part) : 'T' ∉ part := by
  have hClasses : ∀ form ∈ f.forms, ∀ k ∈ form, k.holds 'T' = false := by
    cases f <;> decide
  obtain ⟨form, hForm, hWrites⟩ := h
  have hForms := hClasses form hForm
  clear hForm hClasses
  induction hWrites with
  | nil => exact List.not_mem_nil
  | @cons k c form part hHolds _ ih =>
    rw [List.forall_mem_cons] at hForms
    refine List.not_mem_cons_of_ne_of_not_mem ?_ (ih hForms.2)
    rintro rfl
    exact Bool.false_ne_true (hForms.1.symm.trans hHolds)

end MomentField

/-! ## Stamps -/

def isStamp (cs : List Char) : Bool :=
  cs.length == compactLength && (cs.take 8).all Char.isDigit &&
    ((cs.drop 8).take 1).all (·.toLower == 't') && (cs.drop 9).all Char.isDigit

/-- The moment that a stamp says. A stamp may name a day or a time that there is not. -/
def stampMoment? (cs : List Char) : Option Moment :=
  let pair (start : Nat) : Nat := digitsValue ((cs.drop start).take 2)
  if isStamp cs then
    (Date.of? (digitsValue (cs.take 4)) (pair 4) (pair 6)).bind fun date =>
      (TimeOfDay.of? (pair 9) (pair 11) (pair 13)).map fun time => ⟨date, time⟩
  else none

/-- The instant of a moment after the start of 1970, and else the other value. -/
def laterMillis (found : Option Moment) (otherwise : Option Int) : Option Int :=
  match found with
  | some m => if 0 < m.epochMillis then some m.epochMillis else otherwise
  | none => otherwise

/-- What a text gives that is only taken if it starts with a stamp. -/
def stampMillis (cs : List Char) (otherwise : Option Int) : Option Int :=
  laterMillis (stampMoment? (cs.take compactLength)) otherwise

theorem laterMillis_eq_otherwise_iff {m : Moment} {otherwise : Option Int} :
    laterMillis (some m) otherwise = otherwise ↔
      (0 < m.epochMillis → otherwise = some m.epochMillis) := by
  by_cases hLater : 0 < m.epochMillis <;> simp [laterMillis, hLater, eq_comm]

theorem compactMillis_eq (text : Option (List Char)) (otherwise : Option Int) :
    compactMillis text otherwise = laterMillis (text.bind compactMoment?) otherwise := rfl

/-- The text is no stamp, and still its widest spelling names the moment. -/
structure ReadLoosely (cs : List Char) (m : Moment) : Prop where
  notStamp : isStamp cs = false
  spelled : ∃ parts, Pattern.compact.IsWidest cs parts ∧ parts.flatten = cs ∧
    Pattern.compact.Names parts m

def stampParts (cs : List Char) : List (List Char) :=
  [cs.take 4, (cs.drop 4).take 2, (cs.drop 6).take 2, (cs.drop 8).take 1, (cs.drop 9).take 2,
    (cs.drop 11).take 2, (cs.drop 13).take 2]

theorem Date.of?_eq_some_iff {year month day : Nat} {date : Date} :
    Date.of? year month day = some date ↔ date.year = year ∧ date.month = month ∧ date.day = day := by
  rw [Date.of?, Option.dite_none_right_eq_some]
  constructor
  · rintro ⟨h, hDate⟩
    cases hDate
    exact ⟨rfl, rfl, rfl⟩
  · rintro ⟨rfl, rfl, rfl⟩
    exact ⟨⟨date.year_valid, date.month_valid, date.day_valid⟩, rfl⟩

theorem TimeOfDay.of?_eq_some_iff {hour minute second : Nat} {time : TimeOfDay} :
    TimeOfDay.of? hour minute second = some time ↔
      time.hour = hour ∧ time.minute = minute ∧ time.second = second := by
  rw [TimeOfDay.of?, Option.dite_none_right_eq_some]
  constructor
  · rintro ⟨h, hTime⟩
    cases hTime
    exact ⟨rfl, rfl, rfl⟩
  · rintro ⟨rfl, rfl, rfl⟩
    exact ⟨⟨time.hour_lt, time.minute_lt, time.second_lt⟩, rfl⟩

theorem daysInMonth_le (year month : Nat) : daysInMonth year month ≤ 31 := by
  unfold daysInMonth
  split <;> split <;> decide

theorem spells_compact_iff {parts : List (List Char)} : Pattern.compact.Spells parts ↔
    ∃ year month day hour minute second : List Char, ∃ letter : Char,
      parts = [year, month, day, [letter], hour, minute, second] ∧
      MomentField.year.Writes year ∧ MomentField.month.Writes month ∧ MomentField.day.Writes day ∧
      'T'.toLower = letter.toLower ∧ MomentField.hour.Writes hour ∧
      MomentField.minute.Writes minute ∧ MomentField.second.Writes second := by
  simp only [Pattern.Spells, Pattern.compact, List.forall₂_cons_left_iff,
    List.forall₂_nil_left_iff, PatternPiece.Allows]
  constructor
  · rintro ⟨year, _, hYear, ⟨month, _, hMonth, ⟨day, _, hDay, ⟨_, _, ⟨letter, rfl, hLetter⟩,
      ⟨hour, _, hHour, ⟨minute, _, hMinute, ⟨second, _, hSecond, rfl, rfl⟩, rfl⟩, rfl⟩,
      rfl⟩, rfl⟩, rfl⟩, rfl⟩
    exact ⟨year, month, day, hour, minute, second, letter, rfl, hYear, hMonth, hDay, hLetter, hHour,
      hMinute, hSecond⟩
  · rintro ⟨year, month, day, hour, minute, second, letter, rfl, hYear, hMonth, hDay, hLetter, hHour,
      hMinute, hSecond⟩
    exact ⟨year, _, hYear, ⟨month, _, hMonth, ⟨day, _, hDay, ⟨_, _, ⟨letter, rfl, hLetter⟩,
      ⟨hour, _, hHour, ⟨minute, _, hMinute, ⟨second, _, hSecond, rfl, rfl⟩, rfl⟩, rfl⟩,
      rfl⟩, rfl⟩, rfl⟩, rfl⟩

/-- In every spelling the year has four characters, the letter one, and the others at most two. -/
theorem widths_of_spells {parts : List (List Char)} (h : Pattern.compact.Spells parts) :
    ∃ month day hour minute second : Nat, Pattern.widths parts =
        [4, month, day, 1, hour, minute, second] ∧
      month ≤ 2 ∧ day ≤ 2 ∧ hour ≤ 2 ∧ minute ≤ 2 ∧ second ≤ 2 := by
  obtain ⟨year, month, day, hour, minute, second, letter, rfl, hYear, hMonth, hDay, -, hHour, hMinute,
    hSecond⟩ := spells_compact_iff.mp h
  have hNarrow : ∀ {f : MomentField} {part : List Char}, f.Writes part → f ≠ .year →
      part.length ≤ 2 := by
    intro f part hWrites hf
    rcases hWrites.length_of_ne_year hf with hOne | hTwo <;> omega
  refine ⟨_, _, _, _, _, ?_, hNarrow hMonth nofun, hNarrow hDay nofun, hNarrow hHour nofun,
    hNarrow hMinute nofun, hNarrow hSecond nofun⟩
  rw [Pattern.widths, List.map_cons, hYear.length_year]
  rfl

section
variable {cs : List Char}

theorem flatten_stampParts (h : cs.length = compactLength) : (stampParts cs).flatten = cs := by
  have hStep : ∀ start count, (cs.drop start).take count ++ cs.drop (start + count) =
      cs.drop start := fun start count => by
    rw [← List.drop_drop, List.take_append_drop]
  have hLast : (cs.drop 13).take 2 = cs.drop 13 :=
    List.take_of_length_le (by rw [List.length_drop, h, compactLength])
  simp only [stampParts, List.flatten_cons, List.flatten_nil, List.append_nil, hLast]
  rw [hStep 11 2, hStep 9 2, hStep 8 1, hStep 6 2, hStep 4 2, List.take_append_drop]

theorem flatten_stampParts_front (h : cs.length = compactLength) :
    (stampParts cs).flatten <+: cs :=
  ⟨[], by rw [List.append_nil, flatten_stampParts h]⟩

theorem widths_stampParts (h : cs.length = compactLength) :
    Pattern.widths (stampParts cs) = [4, 2, 2, 1, 2, 2, 2] := by
  simp [Pattern.widths, stampParts, h, compactLength]

theorem isStamp_iff : isStamp cs = true ↔ cs.length = compactLength ∧
    (∀ c ∈ cs.take 8, c.isDigit = true) ∧ (∀ c ∈ (cs.drop 8).take 1, c.toLower = 't') ∧
    ∀ c ∈ cs.drop 9, c.isDigit = true := by
  simp only [isStamp, Bool.and_eq_true, beq_iff_eq, List.all_eq_true, and_assoc]

theorem stampMoment?_eq_some_iff {m : Moment} : stampMoment? cs = some m ↔
    isStamp cs = true ∧ Pattern.compact.Names (stampParts cs) m := by
  rw [stampMoment?, Option.ite_none_right_eq_some]
  refine and_congr_right fun _ => ?_
  simp only [Option.bind_eq_some_iff, Option.map_eq_some_iff]
  constructor
  · rintro ⟨date, hDate, time, hTime, rfl⟩
    exact ⟨hDate, hTime⟩
  · rintro ⟨hDate, hTime⟩
    exact ⟨m.date, hDate, m.time, hTime, rfl⟩

theorem isDigit_of_mem_front (h : isStamp cs = true) {start count : Nat} (hEnd : start + count ≤ 8)
    {c : Char} (hc : c ∈ (cs.drop start).take count) : c.isDigit = true := by
  apply (isStamp_iff.mp h).2.1 c
  rw [List.take_drop] at hc
  exact List.take_subset_take_left cs hEnd (List.mem_of_mem_drop hc)

theorem isDigit_of_mem_back (h : isStamp cs = true) {start count : Nat} (hStart : 9 ≤ start)
    {c : Char} (hc : c ∈ (cs.drop start).take count) : c.isDigit = true := by
  apply (isStamp_iff.mp h).2.2.2 c
  exact List.drop_subset_drop_left cs hStart (List.mem_of_mem_take hc)

/-- Two digits of a stamp write a field if their number is in its bounds. -/
theorem writes_pair (h : isStamp cs = true) (f : MomentField) (start : Nat) {n : Nat} (hf : f ≠ .year)
    (hSlot : start + 2 ≤ 8 ∨ 9 ≤ start ∧ start + 2 ≤ compactLength)
    (hValue : n = digitsValue ((cs.drop start).take 2)) (hLeast : f.least ≤ n)
    (hGreatest : n ≤ f.greatest) : f.Writes ((cs.drop start).take 2) := by
  obtain rfl := hValue
  refine MomentField.writes_of_bounds hf ?_ (fun c hc => ?_) hLeast hGreatest
  · rw [List.length_take, List.length_drop, (isStamp_iff.mp h).1]
    unfold compactLength at *
    omega
  · rcases hSlot with hFront | ⟨hBack, -⟩
    · exact isDigit_of_mem_front h hFront hc
    · exact isDigit_of_mem_back h hBack hc

/-- The numbers of a day and of a time are in the bounds of their fields. -/
theorem spells_stampParts {m : Moment} (h : isStamp cs = true)
    (hNames : Pattern.compact.Names (stampParts cs) m) :
    Pattern.compact.Spells (stampParts cs) := by
  obtain ⟨hLength, -, hLetter, -⟩ := isStamp_iff.mp h
  obtain ⟨-, hMonth, hDay⟩ := Date.of?_eq_some_iff.mp hNames.1
  obtain ⟨hHour, hMinute, hSecond⟩ := TimeOfDay.of?_eq_some_iff.mp hNames.2
  obtain ⟨letter, hHere⟩ : ∃ letter, (cs.drop 8).take 1 = [letter] :=
    List.length_eq_one_iff.mp (by simp [hLength, compactLength])
  have hYear : MomentField.year.Writes (cs.take 4) := by
    refine MomentField.writes_year (by simp [hLength, compactLength]) fun c hc => ?_
    exact isDigit_of_plain (isDigit_of_mem_front h (by decide : 0 + 4 ≤ 8) hc)
  have hDayLe : m.date.day ≤ 31 := m.date.day_valid.2.trans (daysInMonth_le _ _)
  have hSecondLe : m.time.second ≤ 61 := m.time.second_lt.le.trans (by decide)
  refine spells_compact_iff.mpr ⟨_, _, _, _, _, _, letter, ?_, hYear,
    writes_pair h .month 4 nofun (by decide) hMonth m.date.month_valid.1 m.date.month_valid.2,
    writes_pair h .day 6 nofun (by decide) hDay m.date.day_valid.1 hDayLe,
    ?_,
    writes_pair h .hour 9 nofun (by decide) hHour (Nat.zero_le _)
      (Nat.le_of_lt_succ m.time.hour_lt),
    writes_pair h .minute 11 nofun (by decide) hMinute (Nat.zero_le _)
      (Nat.le_of_lt_succ m.time.minute_lt),
    writes_pair h .second 13 nofun (by decide) hSecond (Nat.zero_le _) hSecondLe⟩
  · rw [stampParts, hHere]
  · rw [hHere, List.forall_mem_singleton] at hLetter
    exact hLetter.symm

/-- A stamp that says a moment has no wider spelling than its own. -/
theorem isWidest_stampParts {m : Moment} (h : isStamp cs = true)
    (hNames : Pattern.compact.Names (stampParts cs) m) :
    Pattern.compact.IsWidest cs (stampParts cs) where
  spells := spells_stampParts h hNames
  front := flatten_stampParts_front (isStamp_iff.mp h).1
  widest others hOthers _ hLt := by
    obtain ⟨month, day, hour, minute, second, hWidths, hMonth, hDay, hHour, hMinute, hSecond⟩ :=
      widths_of_spells hOthers
    rw [widths_stampParts (isStamp_iff.mp h).1, hWidths] at hLt
    simp only [List.cons_lt_cons_iff, List.not_lt_nil, and_false, or_false] at hLt
    omega

/-- A spelling of a whole stamp leaves no field short. -/
theorem eq_stampParts {parts : List (List Char)} (h : isStamp cs = true)
    (hSpells : Pattern.compact.Spells parts) (hText : parts.flatten = cs) :
    parts = stampParts cs := by
  have hLength := (isStamp_iff.mp h).1
  obtain ⟨month, day, hour, minute, second, hWidths, hMonth, hDay, hHour, hMinute, hSecond⟩ :=
    widths_of_spells hSpells
  have hSum : (Pattern.widths parts).sum = compactLength := by
    rw [Pattern.widths, ← List.length_flatten, hText, hLength]
  rw [hWidths] at hSum
  simp only [List.sum_cons, List.sum_nil, compactLength] at hSum
  have hHere : parts.flatten <+: cs := hText ▸ List.prefix_rfl
  refine Pattern.eq_of_widths_eq hHere (flatten_stampParts_front hLength) ?_
  rw [widths_stampParts hLength, hWidths]
  simp only [List.cons.injEq, true_and, and_true]
  omega

theorem moment?_of_isStamp (h : isStamp cs = true) :
    Pattern.compact.moment? cs = stampMoment? cs := by
  ext m
  rw [Pattern.moment?_eq_some_iff, stampMoment?_eq_some_iff]
  constructor
  · rintro ⟨parts, hWidest, hText, hNames⟩
    obtain rfl := eq_stampParts h hWidest.spells hText
    exact ⟨h, hNames⟩
  · rintro ⟨-, hNames⟩
    exact ⟨_, isWidest_stampParts h hNames, flatten_stampParts (isStamp_iff.mp h).1, hNames⟩

theorem moment?_iff_readLoosely {m : Moment} (h : isStamp cs = false) :
    Pattern.compact.moment? cs = some m ↔ ReadLoosely cs m := by
  rw [Pattern.moment?_eq_some_iff]
  exact ⟨fun hSpelled => ⟨h, hSpelled⟩, fun hLoose => hLoose.spelled⟩

/-- Only stamps are read, as far as this text and this other value show, exactly if the other value
is what every loose reading would give. -/
theorem compactMillis_eq_stampMillis_iff {otherwise : Option Int} :
    compactMillis (some cs) otherwise = stampMillis cs otherwise ↔
      ∀ m, ReadLoosely (cs.take compactLength) m → 0 < m.epochMillis →
        otherwise = some m.epochMillis := by
  rw [compactMillis_eq, Option.bind_some, compactMoment?, stampMillis]
  cases hStamp : isStamp (cs.take compactLength) with
  | true =>
    rw [moment?_of_isStamp hStamp]
    refine iff_of_true rfl fun m hLoose => ?_
    exact absurd (hStamp.symm.trans hLoose.notStamp) nofun
  | false =>
    have hNone : stampMoment? (cs.take compactLength) = none := by
      rw [stampMoment?, hStamp, if_neg Bool.false_ne_true]
    simp only [← moment?_iff_readLoosely hStamp, hNone]
    cases Pattern.compact.moment? (cs.take compactLength) with
    | none => exact iff_of_true rfl nofun
    | some m =>
      simp only [Option.some.injEq, forall_eq']
      exact laterMillis_eq_otherwise_iff

/-- Month and day have one digit each here, and it is read as the first of January. -/
example : compactMillis (some "202011T000000".toList) (some 5) = some 1577836800000 ∧
    stampMillis "202011T000000".toList (some 5) = some 5 := by decide

end

end MediaIndex
