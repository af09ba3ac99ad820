import MediaIndex.Media.Audio
import MediaIndex.Media.Image
import MediaIndex.Media.Video
import MediaIndex.Proofs.IntakeColumns
import Mathlib.Data.List.Basic

/-!
# Values that do not convert

A conversion of a tag value fails by refusing the value, or in another way. Where the tag is optional
a refusal counts as an absent value, so only the other failures matter there: numbers too large for
what they are converted to, infinities and divisions by zero. Where nothing is set aside every
failure matters.
-/

namespace MediaIndex.Media

def Succeeds {α : Type} (result : Converted α) : Prop := ∃ a, result = .ok a

/-- The conversion fails, and not by refusing the value. -/
def Escapes {α : Type} (result : Converted α) : Prop :=
  ∃ e : ConversionError, result = .error e ∧ e.isRefusal = false

section
variable {α β : Type} {result : Converted α} {f : α → Converted β} {e : ConversionError}

@[simp] theorem succeeds_ok (a : α) : Succeeds (.ok a : Converted α) := ⟨a, rfl⟩

@[simp] theorem succeeds_pure (a : α) : Succeeds (pure a : Converted α) := ⟨a, rfl⟩

@[simp] theorem not_succeeds_error : ¬ Succeeds (.error e : Converted α) := nofun

@[simp] theorem not_escapes_ok (a : α) : ¬ Escapes (.ok a : Converted α) := nofun

@[simp] theorem escapes_error : Escapes (.error e : Converted α) ↔ e.isRefusal = false := by
  constructor
  · rintro ⟨e', hSame, hEscapes⟩
    exact Except.error.inj hSame ▸ hEscapes
  · exact fun h => ⟨e, rfl, h⟩

theorem not_escapes_refusal (h : e.isRefusal = true) : ¬ Escapes (.error e : Converted α) := by
  rw [escapes_error, h]
  nofun

theorem succeeds_bind_iff :
    Succeeds (result >>= f) ↔ ∃ a, result = .ok a ∧ Succeeds (f a) := by
  cases result <;> simp [Succeeds, bind, Except.bind]

/-- Whether what follows succeeds may not depend on what was found before. -/
theorem succeeds_bind_and {p : Prop} (h : ∀ a, Succeeds (f a) ↔ p) :
    Succeeds (result >>= f) ↔ Succeeds result ∧ p := by
  rw [succeeds_bind_iff]
  simp only [h, exists_and_right]
  rfl

theorem succeeds_bind_pure {g : α → β} :
    Succeeds (result >>= fun a => pure (g a)) ↔ Succeeds result := by
  rw [succeeds_bind_and (p := True) fun a => iff_true_intro (succeeds_pure _), and_true]

theorem escapes_bind_iff :
    Escapes (result >>= f) ↔ Escapes result ∨ ∃ a, result = .ok a ∧ Escapes (f a) := by
  cases result <;> simp [Escapes, bind, Except.bind]

theorem succeeds_unlessRefused_iff : Succeeds (Value.unlessRefused result) ↔ ¬ Escapes result := by
  cases result with
  | ok a => simp [Value.unlessRefused]
  | error e => cases hRefusal : e.isRefusal <;> simp [Value.unlessRefused, hRefusal]

/-- In a list the first value that fails decides. -/
theorem escapes_mapM_iff {xs : List α} : Escapes (xs.mapM f) ↔
    ∃ x, xs.find? (fun x => !(f x).isOk) = some x ∧ Escapes (f x) := by
  induction xs with
  | nil => simp [pure, Except.pure]
  | cons x xs ih =>
    rw [List.mapM_cons, escapes_bind_iff, List.find?_cons]
    cases hx : f x with
    | error e =>
      have hFails : (!(Except.error e : Converted β).isOk) = true := rfl
      simp only [hFails, Option.some.injEq, exists_eq_left', hx, reduceCtorEq, false_and, exists_false,
        or_false]
    | ok b =>
      have hGoes : (!(Except.ok b : Converted β).isOk) = false := rfl
      have hRest : Escapes (xs.mapM f >>= fun bs => pure (b :: bs)) ↔ Escapes (xs.mapM f) := by
        rw [escapes_bind_iff]
        exact or_iff_left fun ⟨bs, _, hPure⟩ => not_escapes_ok _ hPure
      simp only [hGoes, ← ih, not_escapes_ok, false_or, Except.ok.injEq, exists_eq_left', hRest]

end

namespace Value

/-! ## Showing a value -/

mutual

/-- The integers that are written when the value is shown. -/
def integers : Value → List Int
  | int n => [n]
  | ratio num den => if den = 1 then [num] else [num, den]
  | list items => itemIntegers items
  | dict entries => entryIntegers entries
  | _ => []

def itemIntegers : List Value → List Int
  | [] => []
  | v :: vs => integers v ++ itemIntegers vs

def entryIntegers : List (String × Value) → List Int
  | [] => []
  | (_, v) :: rest => integers v ++ entryIntegers rest

end

/-- No integer in the value has more digits than are ever written. -/
def IsShowable (v : Value) : Prop :=
  ∀ n ∈ v.integers, (Nat.repr n.natAbs).length ≤ Numeral.digitLimit

theorem succeeds_integerText_iff {n : Int} :
    Succeeds (integerText n) ↔ (Nat.repr n.natAbs).length ≤ Numeral.digitLimit := by
  unfold integerText
  split
  · next hLong => exact iff_of_false not_succeeds_error (Nat.not_le.mpr hLong)
  · next hShort => exact iff_of_true (succeeds_ok _) (Nat.le_of_not_lt hShort)

theorem succeeds_ratioText_iff {num den : Int} : Succeeds (ratioText num den) ↔
    ∀ n ∈ (ratio num den).integers, (Nat.repr n.natAbs).length ≤ Numeral.digitLimit := by
  unfold ratioText integers
  by_cases hWhole : den = 1
  · rw [if_pos hWhole, List.forall_mem_singleton, ← succeeds_integerText_iff,
      succeeds_bind_and (p := True) fun top => by simp [hWhole], and_true]
  · rw [if_neg hWhole, List.forall_mem_cons, List.forall_mem_singleton, ← succeeds_integerText_iff,
      ← succeeds_integerText_iff]
    refine succeeds_bind_and fun top => ?_
    rw [if_neg hWhole, succeeds_bind_pure]

mutual

theorem succeeds_inner_iff (v : Value) : Succeeds v.inner ↔ v.IsShowable := by
  cases v with
  | null => simp [inner, IsShowable, integers]
  | flag on => simp [inner, IsShowable, integers]
  | int n => simp [inner, IsShowable, integers, succeeds_integerText_iff]
  | float x => simp [inner, IsShowable, integers]
  | text s => simp [inner, IsShowable, integers]
  | ratio num den => exact succeeds_ratioText_iff
  | list items =>
    rw [inner, succeeds_bind_pure]
    exact succeeds_innerItems_iff items
  | dict entries =>
    rw [inner, succeeds_bind_pure]
    exact succeeds_innerEntries_iff entries

theorem succeeds_innerItems_iff (vs : List Value) : Succeeds (innerItems vs) ↔
    ∀ n ∈ itemIntegers vs, (Nat.repr n.natAbs).length ≤ Numeral.digitLimit := by
  cases vs with
  | nil => simp [innerItems, itemIntegers]
  | cons v vs =>
    rw [innerItems, itemIntegers, List.forall_mem_append]
    rw [succeeds_bind_and fun s => succeeds_bind_pure, succeeds_inner_iff v, succeeds_innerItems_iff vs]
    rfl

theorem succeeds_innerEntries_iff (entries : List (String × Value)) :
    Succeeds (innerEntries entries) ↔
      ∀ n ∈ entryIntegers entries, (Nat.repr n.natAbs).length ≤ Numeral.digitLimit := by
  cases entries with
  | nil => simp [innerEntries, entryIntegers]
  | cons entry rest =>
    obtain ⟨key, v⟩ := entry
    rw [innerEntries, entryIntegers, List.forall_mem_append]
    rw [succeeds_bind_and fun s => succeeds_bind_pure, succeeds_inner_iff v,
      succeeds_innerEntries_iff rest]
    rfl

end

theorem succeeds_shown_iff (v : Value) : Succeeds v.shown ↔ v.IsShowable := by
  cases v with
  | text s => simp [shown, IsShowable, integers]
  | null | flag _ | int _ | float _ | ratio _ _ | list _ | dict _ => exact succeeds_inner_iff _

/-! ## Numbers -/

/-- The value is a number that no double can hold. -/
def ExceedsDouble : Value → Prop
  | int n => Double.ofInt? n = none
  | ratio num den => den = 0 ∨
    ∃ negative, Double.round (decide (num < 0) != decide (den < 0)) num.natAbs den.natAbs =
      .infinite negative
  | _ => False

/-- The value is a number, or the text of one, that has no whole part or that no double can hold. -/
def HasNoWhole : Value → Prop
  | float x => ∃ negative, x = .infinite negative
  | text s => ∃ negative, Numeral.double? s.toList = some (.infinite negative)
  | v => v.ExceedsDouble

theorem escapes_integerToDouble_iff {n : Int} :
    Escapes (integerToDouble n) ↔ Double.ofInt? n = none := by
  unfold integerToDouble
  cases Double.ofInt? n <;> simp [ConversionError.isRefusal]

theorem exists_integerToDouble {n : Int} (h : Double.ofInt? n ≠ none) :
    ∃ x, integerToDouble n = .ok x := by
  obtain ⟨x, hx⟩ := Option.ne_none_iff_exists'.mp h
  exact ⟨x, by rw [integerToDouble, hx]⟩

theorem succeeds_flag (on : Bool) : Succeeds (integerToDouble (if on then 1 else 0)) := by
  cases on
  · exact ⟨_, rfl⟩
  · exact ⟨_, rfl⟩

theorem integerToDouble_ne_infinite (n : Int) (negative : Bool) :
    integerToDouble n ≠ .ok (.infinite negative) := by
  unfold integerToDouble Double.ofInt?
  split
  · next x hSome =>
    split at hSome
    · cases hSome
    · next hFinite =>
      rintro hInfinite
      rw [← Option.some.inj hSome] at hInfinite
      exact hFinite negative (Except.ok.inj hInfinite)
  · nofun

theorem escapes_quotient_iff {num den : Int} :
    Escapes (quotient num den) ↔ (ratio num den).ExceedsDouble := by
  unfold quotient ExceedsDouble
  by_cases hZero : den = 0
  · simp [hZero, ConversionError.isRefusal]
  · rw [if_neg hZero]
    split
    · next negative hInfinite =>
      exact iff_of_true (escapes_error.mpr rfl) (.inr ⟨negative, hInfinite⟩)
    · next hFinite =>
      refine iff_of_false (not_escapes_ok _) ?_
      rintro (hDen | ⟨negative, hInfinite⟩)
      · exact hZero hDen
      · exact hFinite negative hInfinite

theorem quotient_ne_infinite (num den : Int) (negative : Bool) :
    quotient num den ≠ .ok (.infinite negative) := by
  unfold quotient
  split
  · nofun
  · split
    · nofun
    · next hFinite => exact fun hInfinite => hFinite negative (Except.ok.inj hInfinite)

theorem escapes_truncateDouble_iff {x : Double} :
    Escapes (truncateDouble x) ↔ ∃ negative, x = .infinite negative := by
  cases x <;> simp [truncateDouble, ConversionError.isRefusal]

theorem escapes_toDouble_iff {v : Value} : Escapes v.toDouble ↔ v.ExceedsDouble := by
  cases v with
  | flag on =>
    obtain ⟨x, hx⟩ := succeeds_flag on
    rw [toDouble, hx]
    exact iff_of_false (not_escapes_ok x) nofun
  | int n => exact escapes_integerToDouble_iff
  | ratio num den => exact escapes_quotient_iff
  | text s =>
    refine iff_of_false ?_ nofun
    rw [toDouble]
    split <;> simp [ConversionError.isRefusal]
  | null | list _ | dict _ => simp [toDouble, ExceedsDouble, ConversionError.isRefusal]
  | float x => exact iff_of_false (not_escapes_ok x) nofun

theorem toDouble_eq_infinite_iff {v : Value} {negative : Bool} :
    v.toDouble = .ok (.infinite negative) ↔ v = .float (.infinite negative) ∨
      ∃ s, v = .text s ∧ Numeral.double? s.toList = some (.infinite negative) := by
  cases v with
  | flag on => exact iff_of_false (integerToDouble_ne_infinite _ negative) (by simp)
  | int n => exact iff_of_false (integerToDouble_ne_infinite n negative) (by simp)
  | ratio num den => exact iff_of_false (quotient_ne_infinite num den negative) (by simp)
  | text s =>
    rw [toDouble]
    split
    · next x hx => simp [hx]
    · next hNone => simp [hNone]
  | float x => simp [toDouble]
  | null | list _ | dict _ => exact iff_of_false nofun (by simp)

theorem escapes_whole_iff {v : Value} : Escapes (v.toDouble >>= truncateDouble) ↔ v.HasNoWhole := by
  rw [escapes_bind_iff, escapes_toDouble_iff]
  simp only [escapes_truncateDouble_iff]
  constructor
  · rintro (hExceeds | ⟨x, hx, negative, rfl⟩)
    · cases v with
      | int n => exact hExceeds
      | ratio num den => exact hExceeds
      | null | flag _ | float _ | text _ | list _ | dict _ => exact hExceeds.elim
    · rcases toDouble_eq_infinite_iff.mp hx with rfl | ⟨s, rfl, hs⟩
      · exact ⟨negative, rfl⟩
      · exact ⟨negative, hs⟩
  · intro hNoWhole
    cases v with
    | float x =>
      obtain ⟨negative, rfl⟩ := hNoWhole
      exact .inr ⟨_, rfl, negative, rfl⟩
    | text s =>
      obtain ⟨negative, hs⟩ := hNoWhole
      exact .inr ⟨_, toDouble_eq_infinite_iff.mpr (.inr ⟨s, rfl, hs⟩), negative, rfl⟩
    | int n => exact .inl hNoWhole
    | ratio num den => exact .inl hNoWhole
    | null | flag _ | list _ | dict _ => exact hNoWhole.elim

theorem not_hasNoWhole_of_isEmpty {v : Value} (h : v.isEmpty = true) : ¬ v.HasNoWhole := by
  cases v with
  | null => exact id
  | text s =>
    obtain rfl : s = "" := by simpa [isEmpty] using h
    rintro ⟨negative, hs⟩
    have hNone : Numeral.double? "".toList = none := by decide
    cases hNone.symm.trans hs
  | flag _ | int _ | float _ | ratio _ _ | list _ | dict _ => cases h

theorem succeeds_wholeNumber_iff {v : Value} : Succeeds v.wholeNumber ↔ ¬ v.HasNoWhole := by
  unfold wholeNumber
  split
  · next hEmpty => exact iff_of_true (succeeds_ok _) (not_hasNoWhole_of_isEmpty hEmpty)
  · rw [succeeds_unlessRefused_iff, escapes_whole_iff]

/-! ## The first of several values -/

/-- The value that stands for all is a dictionary, or its first part has no integer. -/
def HasNoFirstInteger : Value → Prop
  | dict _ => True
  | list (v :: _) => (∃ negative, v = .float (.infinite negative)) ∨ ∃ num, v = .ratio num 0
  | _ => False

theorem escapes_toInteger_iff {v : Value} : Escapes v.toInteger ↔
    (∃ negative, v = .float (.infinite negative)) ∨ ∃ num, v = .ratio num 0 := by
  cases v with
  | float x => simp [toInteger, escapes_truncateDouble_iff]
  | ratio num den =>
    rw [toInteger, truncateRatio]
    split <;> simp_all [ConversionError.isRefusal]
  | text s =>
    rw [toInteger]
    split <;> simp [ConversionError.isRefusal]
  | null | flag _ | int _ | list _ | dict _ => simp [toInteger, ConversionError.isRefusal]

theorem escapes_firstInteger_iff {v : Value} :
    Escapes (v.first >>= toInteger) ↔ v.HasNoFirstInteger := by
  rw [escapes_bind_iff]
  simp only [escapes_toInteger_iff]
  cases v with
  | list items =>
    cases items with
    | nil => simp [first, HasNoFirstInteger, ConversionError.isRefusal]
    | cons v items => simp [first, HasNoFirstInteger]
  | text s => simp [first, HasNoFirstInteger]
  | null | flag _ | int _ | float _ | ratio _ _ | dict _ =>
    simp [first, HasNoFirstInteger, ConversionError.isRefusal]

/-! ## Time stamps -/

/-- The value is a number that is not divided as a double: it, or top or bottom, is too large. -/
def ExceedsRatio : Value → Prop
  | int n => Double.ofInt? n = none
  | ratio num den => den ≠ 0 ∧ (Double.ofInt? num = none ∨ Double.ofInt? den = none)
  | _ => False

def IsNative (n : Int) : Prop := -0x80000000 ≤ n ∧ n < 0x80000000

/-- The first three numbers of a stamp have no whole parts that a native integer can hold: the first
that has none is infinite, or one of them is too large. -/
def NoClock (numbers : List Double) : Prop :=
  (∃ negative, numbers.find? (fun x => !(truncateDouble x).isOk) = some (.infinite negative)) ∨
    ∃ wholes, numbers.mapM truncateDouble = .ok wholes ∧ ∃ n ∈ wholes, ¬ IsNative n

/-- The first part of a stamp that is no double exceeds one, or its three parts are not the native
integers of a clock. -/
def HasNoClock (values : Value) : Prop :=
  ∃ parts, values.parts = .ok parts ∧
    ((∃ v, (parts.take 4).find? (fun v => !v.ratioAsDouble.isOk) = some v ∧ v.ExceedsRatio) ∨
      ∃ numbers, (parts.take 4).mapM ratioAsDouble = .ok numbers ∧ numbers.length = 3 ∧
        NoClock numbers)

theorem escapes_ratioAsDouble_iff {v : Value} : Escapes v.ratioAsDouble ↔ v.ExceedsRatio := by
  cases v with
  | ratio num den =>
    rw [ratioAsDouble, ExceedsRatio]
    by_cases hZero : den = 0
    · rw [if_pos hZero]
      exact iff_of_false (not_escapes_ok _) fun h => h.1 hZero
    · rw [if_neg hZero, escapes_bind_iff, escapes_integerToDouble_iff]
      refine Iff.trans ?_ (and_iff_right hZero).symm
      by_cases hNum : Double.ofInt? num = none
      · exact iff_of_true (.inl hNum) (.inl hNum)
      · obtain ⟨x, hx⟩ := exists_integerToDouble hNum
        rw [or_iff_right hNum, or_iff_right hNum, hx]
        simp only [Except.ok.injEq, exists_eq_left', escapes_bind_iff, escapes_integerToDouble_iff]
        exact or_iff_left fun ⟨y, _, hPure⟩ => not_escapes_ok _ hPure
  | int n => exact escapes_integerToDouble_iff
  | null | flag _ | float _ | text _ | list _ | dict _ =>
    rw [ratioAsDouble, escapes_toDouble_iff]
    · rfl
    · nofun

theorem escapes_nativeInteger_iff {n : Int} : Escapes (nativeInteger n) ↔ ¬ IsNative n := by
  unfold nativeInteger IsNative
  split
  · exact iff_of_true (escapes_error.mpr rfl) (by omega)
  · split
    · exact iff_of_true (escapes_error.mpr rfl) (by omega)
    · split
      · exact iff_of_true (escapes_error.mpr rfl) (by omega)
      · exact iff_of_false (not_escapes_ok _) (by omega)

theorem nativeInteger_of_isNative {n : Int} (h : IsNative n) : nativeInteger n = .ok n := by
  unfold nativeInteger
  obtain ⟨hLow, hHigh⟩ := h
  rw [if_neg (by omega), if_neg (by omega), if_neg (by omega)]

theorem not_escapes_parts {v : Value} : ¬ Escapes v.parts := by
  cases v <;> simp [parts, ConversionError.isRefusal]

end Value

open Value in
theorem escapes_clock_iff {hour minute second : Int} :
    Escapes (do
      return clockTime? (← nativeInteger hour) (← nativeInteger minute) (← nativeInteger second)) ↔
      ∃ n ∈ [hour, minute, second], ¬ IsNative n := by
  simp only [escapes_bind_iff, escapes_nativeInteger_iff, List.mem_cons, List.not_mem_nil, or_false,
    exists_eq_or_imp, exists_eq_left]
  by_cases hHour : IsNative hour <;> by_cases hMinute : IsNative minute <;>
    simp [hHour, hMinute, nativeInteger_of_isNative, pure, Except.pure]

open Value in
theorem escapes_wholes_iff {h m s : Double} :
    Escapes (do
      let hour ← truncateDouble h
      let minute ← truncateDouble m
      let second ← truncateDouble s
      return clockTime? (← nativeInteger hour) (← nativeInteger minute) (← nativeInteger second)) ↔
      NoClock [h, m, s] := by
  have hFirst : (∃ negative, [h, m, s].find? (fun x => !(truncateDouble x).isOk) =
      some (.infinite negative)) ↔ Escapes ([h, m, s].mapM truncateDouble) := by
    simp only [escapes_mapM_iff, escapes_truncateDouble_iff]
    constructor
    · rintro ⟨negative, hFind⟩
      exact ⟨_, hFind, negative, rfl⟩
    · rintro ⟨_, hFind, negative, rfl⟩
      exact ⟨negative, hFind⟩
  rw [NoClock, hFirst]
  simp only [List.mapM_cons, List.mapM_nil]
  cases truncateDouble h with
  | error e => simp [bind, Except.bind]
  | ok hour =>
    cases truncateDouble m with
    | error e => simp [bind, Except.bind]
    | ok minute =>
      cases truncateDouble s with
      | error e => simp [bind, Except.bind]
      | ok second =>
        refine escapes_clock_iff.trans ?_
        simp [bind, Except.bind, pure, Except.pure]

theorem escapes_stampTime?_iff {values : Value} : Escapes (stampTime? values) ↔ values.HasNoClock := by
  rw [stampTime?, escapes_bind_iff, Value.HasNoClock, or_iff_right Value.not_escapes_parts]
  refine exists_congr fun parts => and_congr_right fun _ => ?_
  rw [escapes_bind_iff, escapes_mapM_iff]
  simp only [Value.escapes_ratioAsDouble_iff]
  refine or_congr_right (exists_congr fun numbers => and_congr_right fun _ => ?_)
  split
  · exact escapes_wholes_iff.trans (and_iff_right rfl).symm
  · exact iff_of_false (not_escapes_refusal rfl) nofun
  · next hFew _ =>
    refine iff_of_false (not_escapes_refusal rfl) fun hThree => ?_
    obtain ⟨h, m, s, rfl⟩ := List.length_eq_three.mp hThree.1
    exact hFew h m s rfl

/-! ## Tags of audio files -/

namespace Value

/-- The value is neither text nor a list whose first part can be shown. -/
def LacksText : Value → Prop
  | text _ => False
  | list (first :: _) => ¬ first.IsShowable
  | _ => True

/-- The double that a thousand is. -/
def thousand : Double := .finite ⟨false, 0x1F400000000000, -43⟩

theorem integerToDouble_thousand : integerToDouble 1000 = .ok thousand := by
  have hExact : Double.ofInt? 1000 = some thousand := by decide
  rw [integerToDouble, hExact]

/-- A thousand times the value is no integer. -/
def LacksMillis : Value → Prop
  | flag _ | int _ => False
  | float x => ∀ y, x.mul thousand ≠ .finite y
  | text s => ∀ n, Numeral.integer (String.join (List.replicate 1000 s)).toList ≠ .value n
  | ratio _ den => den = 0
  | _ => True

theorem succeeds_firstShown_iff {v : Value} : Succeeds (v.first >>= shown) ↔ ¬ v.LacksText := by
  cases v with
  | text s => exact iff_of_true ⟨_, rfl⟩ id
  | list items =>
    cases items with
    | nil => exact iff_of_false not_succeeds_error (not_not_intro trivial)
    | cons first items => exact (succeeds_shown_iff first).trans Classical.not_not.symm
  | null | flag _ | int _ | float _ | ratio _ _ | dict _ =>
    exact iff_of_false not_succeeds_error (not_not_intro trivial)

theorem succeeds_truncateDouble_iff {x : Double} :
    Succeeds (truncateDouble x) ↔ ∃ y, x = .finite y := by
  cases x <;> simp [truncateDouble]

end Value

theorem succeeds_thousandfold_iff {v : Value} : Succeeds (thousandfold v) ↔ ¬ v.LacksMillis := by
  cases v with
  | text s =>
    rw [thousandfold, Value.toInteger]
    split
    · next n hRead => exact iff_of_true (succeeds_ok n) fun hLacks => hLacks n hRead
    · next hRead =>
      refine iff_of_false not_succeeds_error (not_not_intro fun n hValue => ?_)
      cases hRead.symm.trans hValue
    · next digits hRead =>
      refine iff_of_false not_succeeds_error (not_not_intro fun n hValue => ?_)
      cases hRead.symm.trans hValue
  | ratio num den =>
    rw [thousandfold]
    by_cases hZero : den = 0
    · rw [if_pos hZero]
      exact iff_of_false not_succeeds_error (not_not_intro hZero)
    · rw [if_neg hZero, Value.truncateRatio, if_neg hZero]
      exact iff_of_true (succeeds_ok _) hZero
  | float x =>
    rw [thousandfold, Value.integerToDouble_thousand]
    exact Value.succeeds_truncateDouble_iff.trans (by simp [Value.LacksMillis])
  | flag on => exact iff_of_true ⟨_, rfl⟩ id
  | int n => exact iff_of_true ⟨_, rfl⟩ id
  | null | list _ | dict _ => exact iff_of_false not_succeeds_error (not_not_intro trivial)

theorem succeeds_tagText_iff {tags : Tags} {key : String} : Succeeds (tagText tags key) ↔
    ¬ ((tags.value key).isGiven = true ∧ (tags.value key).LacksText) := by
  have hText : tagText tags key = if !(tags.value key).isGiven then pure none
      else ((tags.value key).first >>= Value.shown) >>= fun shown =>
        pure (if Text.trim shown = "" then none else some (Text.trim shown)) := by
    rw [tagText, bind_assoc]
  rw [hText]
  cases hGiven : (tags.value key).isGiven with
  | false => exact iff_of_true (succeeds_pure _) fun h => Bool.false_ne_true h.1
  | true =>
    rw [and_iff_right rfl, ← Value.succeeds_firstShown_iff]
    exact succeeds_bind_pure

theorem succeeds_milliseconds_iff {length : Value} :
    Succeeds (milliseconds length) ↔ ¬ (length.isGiven = true ∧ length.LacksMillis) := by
  unfold milliseconds
  split
  · next hGiven => rw [succeeds_bind_pure, succeeds_thousandfold_iff, and_iff_right hGiven]
  · next hGiven => exact iff_of_true (succeeds_pure _) fun h => hGiven h.1

end MediaIndex.Media
