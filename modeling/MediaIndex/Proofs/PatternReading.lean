import MediaIndex.Calendar.Pattern
import Mathlib.Data.List.Forall2
import Mathlib.Data.List.Lex

/-!
# How a pattern reads a text

A spelling gives each piece of a pattern the characters that write it. Reading goes through the
spellings that stand at the front of a text from the widest down, the widths compared piece by piece
from the left, and so it finds one whenever there is one, and of several the widest. It does not look
for one that goes to the end of the text.
-/

namespace MediaIndex

open Text

theorem takeForm?_eq_some_iff {form : List CharClass} {cs taken rest : List Char} :
    takeForm? form cs = some (taken, rest) ↔
      cs = taken ++ rest ∧ List.Forall₂ (fun k c => k.holds c = true) form taken := by
  induction form generalizing cs taken with
  | nil =>
    rw [takeForm?, List.forall₂_nil_left_iff, Option.some.injEq, Prod.mk.injEq]
    constructor
    · rintro ⟨rfl, rfl⟩
      exact ⟨rfl, rfl⟩
    · rintro ⟨rfl, rfl⟩
      exact ⟨rfl, rfl⟩
  | cons k form ih =>
    rw [List.forall₂_cons_left_iff]
    cases cs with
    | nil =>
      refine iff_of_false nofun ?_
      rintro ⟨hText, c, front, -, -, rfl⟩
      cases hText
    | cons c cs =>
      rw [takeForm?]
      split
      · next hHolds =>
        rw [Option.map_eq_some_iff]
        constructor
        · rintro ⟨⟨front, tail⟩, hFront, hSame⟩
          obtain ⟨rfl, rfl⟩ := Prod.mk.inj hSame
          obtain ⟨rfl, hForm⟩ := ih.mp hFront
          exact ⟨rfl, c, front, hHolds, hForm, rfl⟩
        · rintro ⟨hText, d, front, hClass, hForm, rfl⟩
          obtain ⟨rfl, rfl⟩ := List.cons.inj hText
          exact ⟨(front, rest), ih.mpr ⟨rfl, hForm⟩, rfl⟩
      · next hHolds =>
        refine iff_of_false nofun ?_
        rintro ⟨hText, d, front, hClass, -, rfl⟩
        exact hHolds ((List.cons.inj hText).1 ▸ hClass)

namespace MomentField

/-- The characters write the field in one of its forms. -/
def Writes (f : MomentField) (part : List Char) : Prop :=
  ∃ form ∈ f.forms, List.Forall₂ (fun k c => k.holds c = true) form part

instance (f : MomentField) : DecidablePred f.Writes := fun _ =>
  inferInstanceAs (Decidable (∃ form ∈ f.forms, List.Forall₂ _ form _))

variable {f : MomentField} {part : List Char}

theorem Writes.length_of_ne_year (h : f.Writes part) (hf : f ≠ .year) :
    part.length = 1 ∨ part.length = 2 := by
  have hForms : ∀ form ∈ f.forms, form.length = 1 ∨ form.length = 2 := by
    cases f <;> first | exact absurd rfl hf | decide
  obtain ⟨form, hForm, hWrites⟩ := h
  exact hWrites.length_eq ▸ hForms form hForm

theorem Writes.length_year (h : year.Writes part) : part.length = 4 := by
  obtain ⟨form, hForm, hWrites⟩ := h
  rw [← hWrites.length_eq, List.mem_singleton.mp hForm]
  rfl

theorem writes_year (hLength : part.length = 4) (hDigits : ∀ c ∈ part, isDigit c = true) :
    year.Writes part := by
  match part, hLength with
  | [c₁, c₂, c₃, c₄], _ =>
    simp only [List.forall_mem_cons] at hDigits
    obtain ⟨h₁, h₂, h₃, h₄, -⟩ := hDigits
    exact ⟨_, List.mem_singleton_self _, .cons h₁ (.cons h₂ (.cons h₃ (.cons h₄ .nil)))⟩

end MomentField

namespace PatternPiece

def Allows : PatternPiece → List Char → Prop
  | fixed x, part => ∃ c, part = [c] ∧ x.toLower = c.toLower
  | blanks, part => part ≠ [] ∧ ∀ c ∈ part, isBlank c = true
  | field f, part => f.Writes part

def numbers : PatternPiece → List Char → List (MomentField × Nat)
  | field f, part => [(f, digitsValue part)]
  | _, _ => []

/-- What a piece can take from the front of a text and what it then leaves, in the order of trial. -/
def cuts : PatternPiece → List Char → List (List Char × List Char)
  | fixed _, [] => []
  | fixed x, c :: cs => if x.toLower = c.toLower then [([c], cs)] else []
  | blanks, cs => (List.range (cs.takeWhile isBlank).length).reverse.map fun more =>
      (cs.take (more + 1), cs.drop (more + 1))
  | field f, cs => f.forms.filterMap fun form => takeForm? form cs

theorem mem_cuts_fixed_iff {x : Char} {cs part tail : List Char} :
    (part, tail) ∈ (fixed x).cuts cs ↔ cs = part ++ tail ∧ (fixed x).Allows part := by
  cases cs with
  | nil =>
    refine iff_of_false List.not_mem_nil ?_
    rintro ⟨hText, c, rfl, -⟩
    cases hText
  | cons c cs =>
    simp only [cuts, Allows]
    split
    · next hSame =>
      rw [List.mem_singleton, Prod.mk.injEq]
      constructor
      · rintro ⟨rfl, rfl⟩
        exact ⟨rfl, c, rfl, hSame⟩
      · rintro ⟨hText, d, rfl, -⟩
        obtain ⟨rfl, rfl⟩ := List.cons.inj hText
        exact ⟨rfl, rfl⟩
    · next hOther =>
      refine iff_of_false List.not_mem_nil ?_
      rintro ⟨hText, d, rfl, hSame⟩
      exact hOther ((List.cons.inj hText).1 ▸ hSame)

theorem mem_cuts_blanks_iff {cs part tail : List Char} :
    (part, tail) ∈ blanks.cuts cs ↔ cs = part ++ tail ∧ blanks.Allows part := by
  simp only [cuts, Allows, List.mem_map, List.mem_reverse, List.mem_range, Prod.mk.injEq]
  constructor
  · rintro ⟨more, hMore, rfl, rfl⟩
    have hRun := List.takeWhile_prefix (p := isBlank) (l := cs)
    refine ⟨(List.take_append_drop _ cs).symm, ?_, ?_⟩
    · rintro hNil
      rw [List.take_eq_nil_iff] at hNil
      rcases hNil with hZero | rfl
      · cases hZero
      · cases hMore
    · intro c hc
      have hTake : cs.take (more + 1) <+: cs.takeWhile isBlank :=
        List.prefix_of_prefix_length_le (List.take_prefix _ cs) hRun (by
          rw [List.length_take]
          omega)
      exact List.all_eq_true.mp List.all_takeWhile c (hTake.subset hc)
  · rintro ⟨rfl, hNe, hBlank⟩
    have hLength := List.length_pos_iff.mpr hNe
    have hSucc : part.length - 1 + 1 = part.length := by omega
    refine ⟨part.length - 1, ?_, ?_, ?_⟩
    · rw [List.takeWhile_append_of_pos hBlank, List.length_append]
      omega
    · rw [hSucc, List.take_left]
    · rw [hSucc, List.drop_left]

theorem mem_cuts_iff {piece : PatternPiece} {cs part tail : List Char} :
    (part, tail) ∈ piece.cuts cs ↔ cs = part ++ tail ∧ piece.Allows part := by
  cases piece with
  | fixed x => exact mem_cuts_fixed_iff
  | blanks => exact mem_cuts_blanks_iff
  | field f =>
    simp only [cuts, Allows, MomentField.Writes, List.mem_filterMap, takeForm?_eq_some_iff]
    constructor
    · rintro ⟨form, hForm, hText, hWrites⟩
      exact ⟨hText, form, hForm, hWrites⟩
    · rintro ⟨hText, form, hForm, hWrites⟩
      exact ⟨form, hForm, hText, hWrites⟩

/-- The forms of a field are tried from the widest down. The day with a blank in front comes last,
but no text starts both with it and with the form before it. -/
theorem pairwise_forms (f : MomentField) (cs : List Char) :
    (f.forms.filterMap fun form => takeForm? form cs).Pairwise fun cut other =>
      other.1.length ≤ cut.1.length := by
  have hShorter : ∀ {g h : List CharClass}, h.length ≤ g.length →
      ∀ cut, takeForm? g cs = some cut → ∀ other, takeForm? h cs = some other →
        other.1.length ≤ cut.1.length := by
    intro g h hLength cut hCut other hOther
    rw [← (takeForm?_eq_some_iff.mp hCut).2.length_eq,
      ← (takeForm?_eq_some_iff.mp hOther).2.length_eq]
    exact hLength
  have hForms : f ≠ .day → f.forms.Pairwise fun g h => h.length ≤ g.length := by
    cases f <;> decide
  rw [List.pairwise_filterMap]
  by_cases hDay : f = .day
  · subst hDay
    have hFront : (MomentField.day.forms.take 4).Pairwise fun g h => h.length ≤ g.length := by
      decide
    refine List.pairwise_append.mpr ⟨hFront.imp hShorter, List.pairwise_singleton _ _, ?_⟩
    intro g hg h hh
    obtain rfl := List.mem_singleton.mp hh
    rcases (by decide : ∀ g ∈ MomentField.day.forms.take 4,
      2 ≤ g.length ∨ g = [.between '1' '9']) g hg with hWide | rfl
    · exact hShorter hWide
    · intro cut hCut other hOther
      obtain ⟨hText, hDigit⟩ := takeForm?_eq_some_iff.mp hCut
      obtain ⟨hText', hBlank⟩ := takeForm?_eq_some_iff.mp hOther
      obtain ⟨c, _, hc, -, hFirst⟩ := List.forall₂_cons_left_iff.mp hDigit
      obtain ⟨d, _, hd, -, hSecond⟩ := List.forall₂_cons_left_iff.mp hBlank
      rw [hText, hFirst, hSecond] at hText'
      obtain rfl := (List.cons.inj hText').1
      simp only [CharClass.holds, Bool.and_eq_true, decide_eq_true_eq] at hc hd
      exact absurd (Char.le_trans hc.1 hd.2) (by decide)
  · exact (hForms hDay).imp hShorter

theorem pairwise_cuts (piece : PatternPiece) (cs : List Char) :
    (piece.cuts cs).Pairwise fun cut other => other.1.length ≤ cut.1.length := by
  cases piece with
  | fixed x =>
    cases cs with
    | nil => exact .nil
    | cons c cs =>
      simp only [cuts]
      split
      · exact List.pairwise_singleton _ _
      · exact .nil
  | blanks =>
    rw [cuts, List.pairwise_map, List.pairwise_reverse]
    refine List.pairwise_lt_range.imp fun {i j} hLt => ?_
    simp only [List.length_take]
    omega
  | field f => exact pairwise_forms f cs

end PatternPiece

namespace Pattern

theorem read?_cons (piece : PatternPiece) (pieces : Pattern) (cs : List Char) :
    read? (piece :: pieces) cs = (piece.cuts cs).findSome? fun cut =>
      (read? pieces cut.2).map fun result => (piece.numbers cut.1 ++ result.1, result.2) := by
  cases piece with
  | fixed x =>
    cases cs with
    | nil => rfl
    | cons c cs =>
      simp only [read?, PatternPiece.cuts]
      split
      · simp [PatternPiece.numbers]
      · rfl
  | blanks =>
    simp only [read?, PatternPiece.cuts, List.findSome?_map]
    simp [PatternPiece.numbers, Function.comp_def]
  | field f =>
    simp only [read?, PatternPiece.cuts]
    rw [← List.head?_filterMap, ← List.head?_filterMap, List.filterMap_filterMap]
    rfl

/-- A spelling of the pattern: for each piece the characters that write it. -/
def Spells : Pattern → List (List Char) → Prop :=
  List.Forall₂ PatternPiece.Allows

/-- The numbers that a spelling writes. -/
def numbers (pattern : Pattern) (parts : List (List Char)) : List (MomentField × Nat) :=
  (List.zipWith PatternPiece.numbers pattern parts).flatten

def widths (parts : List (List Char)) : List Nat := parts.map List.length

/-- Of all spellings at the front of the text this one is widest: where another one first differs
from it in width, the other is narrower. -/
structure IsWidest (pattern : Pattern) (cs : List Char) (parts : List (List Char)) : Prop where
  spells : pattern.Spells parts
  front : parts.flatten <+: cs
  widest : ∀ others, pattern.Spells others → others.flatten <+: cs → ¬ widths parts < widths others

variable {pattern : Pattern} {cs rest : List Char} {parts others : List (List Char)}

theorem read?_eq_none_iff : pattern.read? cs = none ↔
    ∀ parts, pattern.Spells parts → ¬ parts.flatten <+: cs := by
  induction pattern generalizing cs with
  | nil =>
    refine iff_of_false nofun fun hNone => ?_
    exact hNone [] .nil List.nil_prefix
  | cons piece pieces ih =>
    simp only [read?_cons, List.findSome?_eq_none_iff, Option.map_eq_none_iff, ih]
    constructor
    · intro hNone parts hSpells hFront
      obtain ⟨part, more, hPart, hMore, rfl⟩ := List.forall₂_cons_left_iff.mp hSpells
      obtain ⟨rest, hText⟩ := hFront
      rw [List.flatten_cons, List.append_assoc] at hText
      exact hNone (part, more.flatten ++ rest)
        (PatternPiece.mem_cuts_iff.mpr ⟨hText.symm, hPart⟩) more hMore (List.prefix_append _ _)
    · rintro hNone ⟨part, tail⟩ hCut more hMore ⟨rest, hTail⟩
      obtain ⟨rfl, hPart⟩ := PatternPiece.mem_cuts_iff.mp hCut
      apply hNone (part :: more) (.cons hPart hMore)
      rw [List.flatten_cons, List.prefix_append_right_inj]
      exact ⟨rest, hTail⟩

/-- The characters that one piece takes fix what is left for the others. -/
theorem IsWidest.cons {piece : PatternPiece} {pieces : Pattern} {part tail : List Char}
    {more : List (List Char)} (hPart : piece.Allows part) (h : IsWidest pieces tail more)
    (hWider : ∀ cut ∈ piece.cuts (part ++ tail), part.length < cut.1.length →
      pieces.read? cut.2 = none) :
    IsWidest (piece :: pieces) (part ++ tail) (part :: more) where
  spells := .cons hPart h.spells
  front := by
    rw [List.flatten_cons, List.prefix_append_right_inj]
    exact h.front
  widest others hOthers hFront hLt := by
    obtain ⟨other, rest, hOther, hRest, rfl⟩ := List.forall₂_cons_left_iff.mp hOthers
    obtain ⟨left, hText⟩ := hFront
    rw [List.flatten_cons, List.append_assoc] at hText
    rcases List.cons_lt_cons_iff.mp hLt with hLonger | ⟨hSame, hRestLt⟩
    · have hNone := hWider (other, rest.flatten ++ left)
        (PatternPiece.mem_cuts_iff.mpr ⟨hText.symm, hOther⟩) hLonger
      exact read?_eq_none_iff.mp hNone rest hRest (List.prefix_append _ _)
    · obtain ⟨rfl, rfl⟩ := List.append_inj hText.symm hSame
      exact h.widest rest hRest (List.prefix_append _ _) hRestLt

theorem exists_isWidest_of_read? {numbers : List (MomentField × Nat)}
    (h : pattern.read? cs = some (numbers, rest)) :
    ∃ parts, IsWidest pattern cs parts ∧ cs = parts.flatten ++ rest ∧
      numbers = pattern.numbers parts := by
  induction pattern generalizing cs numbers with
  | nil =>
    cases h
    refine ⟨[], ⟨.nil, List.nil_prefix, ?_⟩, rfl, rfl⟩
    intro others hOthers _
    rw [List.forall₂_nil_left_iff.mp hOthers]
    exact List.lt_irrefl []
  | cons piece pieces ih =>
    rw [read?_cons, List.findSome?_eq_some_iff] at h
    obtain ⟨before, ⟨part, tail⟩, after, hCuts, hRead, hBefore⟩ := h
    obtain ⟨⟨more, rest'⟩, hTail, hSame⟩ := Option.map_eq_some_iff.mp hRead
    obtain ⟨rfl, rfl⟩ := Prod.mk.inj hSame
    have hCut : (part, tail) ∈ piece.cuts cs := by
      rw [hCuts]
      exact List.mem_append_right _ List.mem_cons_self
    obtain ⟨rfl, hPart⟩ := PatternPiece.mem_cuts_iff.mp hCut
    obtain ⟨parts, hWidest, hText, rfl⟩ := ih hTail
    refine ⟨part :: parts, hWidest.cons hPart ?_, ?_, rfl⟩
    · intro cut hMem hLonger
      have hSorted := PatternPiece.pairwise_cuts piece (part ++ tail)
      rw [hCuts, List.pairwise_append] at hSorted
      rw [hCuts, List.mem_append, List.mem_cons] at hMem
      rcases hMem with hMem | rfl | hMem
      · simpa using hBefore cut hMem
      · exact absurd hLonger (Nat.lt_irrefl _)
      · exact absurd hLonger (Nat.not_lt.mpr ((List.pairwise_cons.mp hSorted.2.1).1 cut hMem))
    · rw [List.flatten_cons, List.append_assoc, ← hText]

/-- Spellings at the front of one text are told apart by their widths. -/
theorem eq_of_widths_eq (h : parts.flatten <+: cs) (h' : others.flatten <+: cs)
    (hSame : widths parts = widths others) : parts = others := by
  induction parts generalizing others cs with
  | nil => exact (List.map_eq_nil_iff.mp hSame.symm).symm
  | cons part parts ih =>
    obtain ⟨other, others, rfl⟩ := List.exists_cons_of_ne_nil (l := others) (by
      rintro rfl
      cases hSame)
    obtain ⟨hLength, hWidths⟩ := List.cons.inj hSame
    obtain ⟨rest, rfl⟩ := h
    obtain ⟨rest', hText⟩ := h'
    simp only [List.flatten_cons, List.append_assoc] at hText
    obtain ⟨rfl, hTail⟩ := List.append_inj hText hLength.symm
    rw [ih (List.prefix_append parts.flatten rest) ⟨rest', hTail⟩ hWidths]

theorem IsWidest.unique (h : IsWidest pattern cs parts) (h' : IsWidest pattern cs others) :
    parts = others := by
  apply eq_of_widths_eq h.front h'.front
  exact List.le_antisymm (h'.widest parts h.spells h.front)
    (h.widest others h'.spells h'.front)

theorem read?_eq_some_iff {numbers : List (MomentField × Nat)} :
    pattern.read? cs = some (numbers, rest) ↔ ∃ parts, IsWidest pattern cs parts ∧
      cs = parts.flatten ++ rest ∧ numbers = pattern.numbers parts := by
  constructor
  · exact exists_isWidest_of_read?
  · rintro ⟨parts, hWidest, hText, rfl⟩
    cases hRead : pattern.read? cs with
    | none => exact absurd hWidest.front (read?_eq_none_iff.mp hRead parts hWidest.spells)
    | some result =>
      obtain ⟨numbers, tail⟩ := result
      obtain ⟨others, hOthers, hText', rfl⟩ := exists_isWidest_of_read? hRead
      obtain rfl := hWidest.unique hOthers
      rw [List.append_cancel_left (hText.symm.trans hText')]

/-- The numbers of a spelling name the moment; a field that the pattern lacks has its usual value. -/
def Names (pattern : Pattern) (parts : List (List Char)) (m : Moment) : Prop :=
  Date.of? (numberOf (pattern.numbers parts) .year 1900)
      (numberOf (pattern.numbers parts) .month 1) (numberOf (pattern.numbers parts) .day 1) =
        some m.date ∧
    TimeOfDay.of? (numberOf (pattern.numbers parts) .hour 0)
      (numberOf (pattern.numbers parts) .minute 0) (numberOf (pattern.numbers parts) .second 0) =
        some m.time

/-- A text writes a moment if its widest spelling goes to the end of the text and names it. -/
theorem moment?_eq_some_iff {m : Moment} : pattern.moment? cs = some m ↔
    ∃ parts, IsWidest pattern cs parts ∧ parts.flatten = cs ∧ pattern.Names parts m := by
  constructor
  · intro h
    unfold moment? at h
    split at h
    · next numbers hRead =>
      obtain ⟨parts, hWidest, hText, rfl⟩ := read?_eq_some_iff.mp hRead
      rw [List.append_nil] at hText
      split at h
      · next date time hDate hTime =>
        cases h
        exact ⟨parts, hWidest, hText.symm, hDate, hTime⟩
      · cases h
    · cases h
  · rintro ⟨parts, hWidest, hText, hDate, hTime⟩
    have hRead : pattern.read? cs = some (pattern.numbers parts, []) :=
      read?_eq_some_iff.mpr ⟨parts, hWidest, by rw [hText, List.append_nil], rfl⟩
    simp only [moment?, hRead, hDate, hTime]

/-! ## Fields of one or two characters -/

/-- What comes of a field that takes these characters, and of the pieces after it. -/
def readPart? (f : MomentField) (part : List Char) (pieces : Pattern) (tail : List Char) :
    Option (List (MomentField × Nat) × List Char) :=
  if f.Writes part then
    (read? pieces tail).map fun result => ((f, digitsValue part) :: result.1, result.2)
  else none

theorem readPart?_eq_some_iff {f : MomentField} {part tail : List Char} {pieces : Pattern}
    {result : List (MomentField × Nat) × List Char} :
    readPart? f part pieces tail = some result ↔ f.Writes part ∧ ∃ numbers rest,
      read? pieces tail = some (numbers, rest) ∧ ((f, digitsValue part) :: numbers, rest) = result := by
  rw [readPart?, Option.ite_none_right_eq_some, Option.map_eq_some_iff, Prod.exists]

theorem mem_cuts_field_iff {f : MomentField} (hf : f ≠ .year) {c d : Char} {rest : List Char}
    {cut : List Char × List Char} : cut ∈ PatternPiece.cuts (.field f) (c :: d :: rest) ↔
      f.Writes [c, d] ∧ cut = ([c, d], rest) ∨ f.Writes [c] ∧ cut = ([c], d :: rest) := by
  obtain ⟨part, tail⟩ := cut
  rw [PatternPiece.mem_cuts_iff, Prod.mk.injEq, Prod.mk.injEq]
  constructor
  · rintro ⟨hText, hWrites⟩
    rcases MomentField.Writes.length_of_ne_year hWrites hf with hOne | hTwo
    · obtain ⟨e, rfl⟩ := List.length_eq_one_iff.mp hOne
      obtain ⟨rfl, rfl⟩ := List.cons.inj hText
      exact .inr ⟨hWrites, rfl, rfl⟩
    · obtain ⟨e, e', rfl⟩ := List.length_eq_two.mp hTwo
      obtain ⟨rfl, hTail⟩ := List.cons.inj hText
      obtain ⟨rfl, rfl⟩ := List.cons.inj hTail
      exact .inl ⟨hWrites, rfl, rfl⟩
  · rintro (⟨hWrites, rfl, rfl⟩ | ⟨hWrites, rfl, rfl⟩)
    · exact ⟨rfl, hWrites⟩
    · exact ⟨rfl, hWrites⟩

/-- A field other than the year takes two characters if the rest can then be read, and else one. -/
theorem read?_field_cons_cons (f : MomentField) (hf : f ≠ .year) (pieces : Pattern) (c d : Char)
    (rest : List Char) : read? (.field f :: pieces) (c :: d :: rest) =
      (readPart? f [c, d] pieces rest).or (readPart? f [c] pieces (d :: rest)) := by
  have hTake : ∀ part tail result, c :: d :: rest = part ++ tail →
      readPart? f part pieces tail = some result →
      (∀ cut ∈ PatternPiece.cuts (.field f) (part ++ tail), part.length < cut.1.length →
        pieces.read? cut.2 = none) →
      read? (.field f :: pieces) (c :: d :: rest) = some result := by
    intro part tail result hText hResult hWider
    obtain ⟨hWrites, numbers, left, hRead, rfl⟩ := readPart?_eq_some_iff.mp hResult
    obtain ⟨more, hMore, rfl, rfl⟩ := exists_isWidest_of_read? hRead
    rw [hText]
    refine read?_eq_some_iff.mpr ⟨part :: more, hMore.cons hWrites hWider, ?_, rfl⟩
    rw [List.flatten_cons, List.append_assoc]
  cases hWide : readPart? f [c, d] pieces rest with
  | some result =>
    refine hTake [c, d] rest result rfl hWide fun cut hCut hLonger => ?_
    rcases (mem_cuts_field_iff hf).mp hCut with ⟨-, rfl⟩ | ⟨-, rfl⟩
    · exact absurd hLonger (Nat.lt_irrefl 2)
    · exact absurd hLonger (by simp)
  | none =>
    have hNone : f.Writes [c, d] → pieces.read? rest = none := by
      intro hWrites
      rw [readPart?, if_pos hWrites, Option.map_eq_none_iff] at hWide
      exact hWide
    cases hNarrow : readPart? f [c] pieces (d :: rest) with
    | some result =>
      refine hTake [c] (d :: rest) result rfl hNarrow fun cut hCut hLonger => ?_
      rcases (mem_cuts_field_iff hf).mp hCut with ⟨hWrites, rfl⟩ | ⟨-, rfl⟩
      · exact hNone hWrites
      · exact absurd hLonger (Nat.lt_irrefl 1)
    | none =>
      rw [read?_cons]
      refine List.findSome?_eq_none_iff.mpr fun cut hCut => Option.map_eq_none_iff.mpr ?_
      rcases (mem_cuts_field_iff hf).mp hCut with ⟨hWrites, rfl⟩ | ⟨hWrites, rfl⟩
      · exact hNone hWrites
      · rw [readPart?, if_pos hWrites, Option.map_eq_none_iff] at hNarrow
        exact hNarrow

theorem read?_year_cons {pieces : Pattern} {c₁ c₂ c₃ c₄ : Char} (rest : List Char)
    (h : ∀ c ∈ [c₁, c₂, c₃, c₄], isDigit c = true) :
    read? (.field .year :: pieces) (c₁ :: c₂ :: c₃ :: c₄ :: rest) =
      (read? pieces rest).map fun result =>
        ((.year, digitsValue [c₁, c₂, c₃, c₄]) :: result.1, result.2) := by
  simp only [List.forall_mem_cons] at h
  simp [read?, MomentField.forms, takeForm?, CharClass.holds, h]

end Pattern

end MediaIndex
