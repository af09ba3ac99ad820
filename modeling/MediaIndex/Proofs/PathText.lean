import MediaIndex.Catalog.Table

/-!
# Paths and their texts

The catalog knows paths by their texts alone. A path that counts from a root and whose names can
stand between slashes is told by its text, and of two such paths one lies at or below the other
exactly if the one text goes on from the other. The catalog sees it so as long as no zero character
cuts the text short, which the names that a directory can hold rule out. What it asks of a path is a
matter of the text in front of it, so it can be asked of texts that no path has.
-/

namespace MediaIndex

/-- A name that can stand between slashes. -/
structure IsSegment (name : String) : Prop where
  ne_empty : name ≠ ""
  no_slash : '/' ∉ name.toList

instance : DecidablePred IsSegment := fun name =>
  decidable_of_iff (name ≠ "" ∧ '/' ∉ name.toList)
    ⟨fun ⟨hEmpty, hSlash⟩ => ⟨hEmpty, hSlash⟩, fun ⟨hEmpty, hSlash⟩ => ⟨hEmpty, hSlash⟩⟩

/-- A name that a directory can hold. -/
structure IsName (name : String) : Prop where
  ne_empty : name ≠ ""
  ne_dot : name ≠ "."
  no_slash : '/' ∉ name.toList
  no_zero : Char.ofNat 0 ∉ name.toList

instance : DecidablePred IsName := fun name =>
  decidable_of_iff (name ≠ "" ∧ name ≠ "." ∧ '/' ∉ name.toList ∧ Char.ofNat 0 ∉ name.toList)
    ⟨fun ⟨hEmpty, hDot, hSlash, hZero⟩ => ⟨hEmpty, hDot, hSlash, hZero⟩,
      fun ⟨hEmpty, hDot, hSlash, hZero⟩ => ⟨hEmpty, hDot, hSlash, hZero⟩⟩

theorem IsName.isSegment {name : String} (h : IsName name) : IsSegment name :=
  ⟨h.ne_empty, h.no_slash⟩

namespace Path

/-- All names of the path are ones that a directory can hold; double dots count. -/
def IsProper (p : Path) : Prop := ∀ name ∈ p.names, IsName name

instance : DecidablePred IsProper := fun p =>
  inferInstanceAs (Decidable (∀ name ∈ p.names, IsName name))

theorem mem_splitAt {sep : Char} {cs segment : List Char} (h : segment ∈ Text.splitAt sep cs) :
    sep ∉ segment ∧ segment ⊆ cs := by
  induction cs generalizing segment with
  | nil =>
    obtain rfl := List.mem_singleton.mp h
    exact ⟨List.not_mem_nil, List.nil_subset _⟩
  | cons c cs ih =>
    rw [Text.splitAt] at h
    split at h
    · rcases List.mem_cons.mp h with rfl | h
      · exact ⟨List.not_mem_nil, List.nil_subset _⟩
      · exact ⟨(ih h).1, List.Subset.trans (ih h).2 (List.subset_cons_self c cs)⟩
    · next hSep =>
      split at h
      · next hNil => exact absurd hNil (Text.splitAt_ne_nil sep cs)
      · next first rest hSplit =>
        rw [hSplit] at ih
        rcases List.mem_cons.mp h with rfl | h
        · obtain ⟨hNot, hSubset⟩ := ih List.mem_cons_self
          constructor
          · exact List.not_mem_cons_of_ne_of_not_mem (fun hEq => hSep hEq.symm) hNot
          · exact List.cons_subset_cons c hSubset
        · obtain ⟨hNot, hSubset⟩ := ih (List.mem_cons_of_mem first h)
          exact ⟨hNot, List.Subset.trans hSubset (List.subset_cons_self c cs)⟩

/-- Every text that a disk can be asked for writes a proper path. -/
theorem isProper_ofText {text : String} (h : Char.ofNat 0 ∉ text.toList) :
    (ofText text).IsProper := by
  intro name hName
  obtain ⟨hMem, hNe⟩ := List.mem_filter.mp hName
  obtain ⟨segment, hSegment, rfl⟩ := List.mem_map.mp hMem
  obtain ⟨hSlash, hSubset⟩ := mem_splitAt hSegment
  obtain ⟨hEmpty, hDot⟩ := of_decide_eq_true hNe
  refine ⟨hEmpty, hDot, ?_, ?_⟩
  · rw [String.toList_ofList]
    exact hSlash
  · rw [String.toList_ofList]
    exact fun hZero => h (hSubset hZero)

/-- The path counts from a root, and its names are told apart in its text. -/
structure IsRooted (p : Path) : Prop where
  anchored : p.anchor ≠ .here
  segments : ∀ name ∈ p.names, IsSegment name

/-- The path counts from a root, and no double dot is left in it. -/
structure IsAbsolute (p : Path) : Prop where
  anchored : p.anchor ≠ .here
  proper : p.IsProper
  settled : ".." ∉ p.names

theorem IsAbsolute.isRooted {p : Path} (h : p.IsAbsolute) : p.IsRooted :=
  ⟨h.anchored, fun name hName => (h.proper name hName).isSegment⟩

theorem mem_settle {names : List String} {name : String} (h : name ∈ settle names) :
    name ∈ names ∧ name ≠ ".." := by
  suffices ∀ done : List String, (∀ n ∈ done, n ≠ "..") →
      name ∈ names.foldl (fun done name => if name = ".." then done.dropLast else done ++ [name])
        done → (name ∈ done ∨ name ∈ names) ∧ name ≠ ".." by
    obtain ⟨hMem, hNe⟩ := this [] (by simp) h
    exact ⟨by simpa using hMem, hNe⟩
  clear h
  induction names with
  | nil =>
    intro done hDone h
    exact ⟨.inl h, hDone name h⟩
  | cons next rest ih =>
    intro done hDone h
    rw [List.foldl_cons] at h
    split at h
    · have hSub : done.dropLast ⊆ done := (List.dropLast_sublist done).subset
      obtain ⟨hMem, hNe⟩ := ih done.dropLast (fun n hn => hDone n (hSub hn)) h
      exact ⟨hMem.imp (fun hn => hSub hn) (List.mem_cons_of_mem next), hNe⟩
    · next hNext =>
      obtain ⟨hMem, hNe⟩ := ih (done ++ [next]) (by
        intro n hn
        rcases List.mem_append.mp hn with hn | hn
        · exact hDone n hn
        · exact (List.mem_singleton.mp hn) ▸ hNext) h
      refine ⟨?_, hNe⟩
      rcases hMem with hMem | hMem
      · rcases List.mem_append.mp hMem with hMem | hMem
        · exact .inl hMem
        · exact .inr ((List.mem_singleton.mp hMem) ▸ List.mem_cons_self)
      · exact .inr (List.mem_cons_of_mem next hMem)

theorem IsProper.absolute {p : Path} (h : p.IsProper) : p.absolute.IsAbsolute where
  anchored := by
    unfold Path.absolute
    split <;> simp_all
  proper name hName := h name (mem_settle hName).1
  settled hMem := (mem_settle hMem).2 rfl

theorem IsAbsolute.child {p : Path} (h : p.IsAbsolute) {name : String} (hName : IsName name)
    (hUp : name ≠ "..") : (p.child name).IsAbsolute where
  anchored := h.anchored
  proper n hn := by
    rcases List.mem_append.mp hn with hn | hn
    · exact h.proper n hn
    · exact (List.mem_singleton.mp hn) ▸ hName
  settled hMem := by
    rcases List.mem_append.mp hMem with hMem | hMem
    · exact h.settled hMem
    · exact hUp (List.mem_singleton.mp hMem).symm

theorem isUnder_iff {p q : Path} :
    p.isUnder q = true ↔ p.anchor = q.anchor ∧ q.names <+: p.names := by
  simp [isUnder]

theorem isUnder_refl (p : Path) : p.isUnder p = true :=
  isUnder_iff.mpr ⟨rfl, List.prefix_refl p.names⟩

theorem isUnder_antisymm {p q : Path} (h : p.isUnder q = true) (h' : q.isUnder p = true) :
    p = q := by
  obtain ⟨hAnchor, hNames⟩ := isUnder_iff.mp h
  have hSame := hNames.eq_of_length_le (isUnder_iff.mp h').2.length_le
  cases p
  cases q
  simp_all

theorem isUnder_trans {p q r : Path} (hpq : p.isUnder q = true) (hqr : q.isUnder r = true) :
    p.isUnder r = true := by
  obtain ⟨hA, hN⟩ := isUnder_iff.mp hpq
  obtain ⟨hA', hN'⟩ := isUnder_iff.mp hqr
  exact isUnder_iff.mpr ⟨hA.trans hA', hN'.trans hN⟩

theorem mem_parents_iff {p q : Path} : q = p ∨ q ∈ p.parents ↔ p.isUnder q = true := by
  rw [isUnder_iff, parents, List.mem_map]
  constructor
  · rintro (rfl | ⟨count, -, rfl⟩)
    · exact ⟨rfl, List.prefix_refl _⟩
    · exact ⟨rfl, List.take_prefix count p.names⟩
  · rintro ⟨hAnchor, hNames⟩
    have hTake := List.prefix_iff_eq_take.mp hNames
    rcases Nat.lt_or_ge q.names.length p.names.length with hLt | hGe
    · refine .inr ⟨q.names.length, by simpa using hLt, ?_⟩
      rw [← hTake, hAnchor]
    · exact .inl (isUnder_antisymm (isUnder_iff.mpr ⟨hAnchor.symm,
        (hNames.eq_of_length_le hGe).symm ▸ List.prefix_refl _⟩)
        (isUnder_iff.mpr ⟨hAnchor, hNames⟩))

end Path

/-! ## Names between slashes -/

/-- Names, each with a slash after it. -/
def trail (names : List String) : List Char :=
  names.flatMap fun name => name.toList ++ ['/']

theorem trail_cons (name : String) (rest : List String) :
    trail (name :: rest) = name.toList ++ '/' :: trail rest := by
  simp [trail]

theorem trail_append (names more : List String) :
    trail (names ++ more) = trail names ++ trail more := by
  simp [trail]

theorem eq_of_append_slash_prefix {x y : List Char} (hx : '/' ∉ x) (hy : '/' ∉ y)
    {xs ys : List Char} (h : x ++ '/' :: xs <+: y ++ '/' :: ys) : x = y ∧ xs <+: ys := by
  induction x generalizing y with
  | nil =>
    cases y with
    | nil => exact ⟨rfl, (List.cons_prefix_cons.mp h).2⟩
    | cons c y =>
      have hEq := (List.cons_prefix_cons.mp h).1
      exact absurd (hEq ▸ List.mem_cons_self) hy
  | cons c x ih =>
    cases y with
    | nil =>
      have hEq := (List.cons_prefix_cons.mp h).1
      exact absurd (hEq ▸ List.mem_cons_self) hx
    | cons d y =>
      obtain ⟨rfl, hRest⟩ := List.cons_prefix_cons.mp h
      obtain ⟨rfl, hTail⟩ := ih (fun hMem => hx (List.mem_cons_of_mem c hMem))
        (fun hMem => hy (List.mem_cons_of_mem c hMem)) hRest
      exact ⟨rfl, hTail⟩

theorem trail_prefix_iff {names more : List String} (hNames : ∀ name ∈ names, IsSegment name)
    (hMore : ∀ name ∈ more, IsSegment name) : trail names <+: trail more ↔ names <+: more := by
  constructor
  · intro h
    induction names generalizing more with
    | nil => exact List.nil_prefix
    | cons name names ih =>
      cases more with
      | nil => simp [trail] at h
      | cons other more =>
        rw [trail_cons, trail_cons] at h
        obtain ⟨hEq, hRest⟩ := eq_of_append_slash_prefix (hNames name List.mem_cons_self).no_slash
          (hMore other List.mem_cons_self).no_slash h
        obtain rfl := String.toList_inj.mp hEq
        exact List.cons_prefix_cons.mpr ⟨rfl, ih (fun n hn => hNames n (List.mem_cons_of_mem _ hn))
          (fun n hn => hMore n (List.mem_cons_of_mem _ hn)) hRest⟩
  · rintro ⟨rest, rfl⟩
    rw [trail_append]
    exact List.prefix_append (trail names) (trail rest)

theorem intercalate_append_slash {names : List String} (h : names ≠ []) :
    (String.intercalate "/" names).toList ++ ['/'] = trail names := by
  induction names with
  | nil => exact absurd rfl h
  | cons name rest ih =>
    cases rest with
    | nil => simp [trail]
    | cons next rest =>
      rw [String.intercalate_cons_cons, trail_cons, ← ih (by simp)]
      simp

/-! ## The text of a path from a root -/

namespace Path

theorem IsRooted.toList_text {p : Path} (h : p.IsRooted) :
    p.text.toList = p.anchor.text.toList ++ (String.intercalate "/" p.names).toList := by
  rw [text, if_neg (fun hHere => h.anchored hHere.1), String.toList_append]

theorem IsRooted.toList_text_concat {p : Path} (h : p.IsRooted) {front : List String}
    {last : String} (hNames : p.names = front ++ [last]) :
    p.text.toList = p.anchor.text.toList ++ trail front ++ last.toList := by
  have hTrail : (String.intercalate "/" p.names).toList ++ ['/'] =
      trail front ++ last.toList ++ ['/'] := by
    rw [intercalate_append_slash (by simp [hNames]), hNames, trail_append, trail_cons]
    simp [trail]
  rw [h.toList_text, List.append_cancel_right hTrail, List.append_assoc]

theorem IsRooted.belowText_eq {p : Path} (h : p.IsRooted) :
    Catalog.Table.belowText p = p.anchor.text.toList ++ trail p.names := by
  rcases List.eq_nil_or_concat p.names with hNames | ⟨front, last, hNames⟩
  · have hText : p.text.toList = p.anchor.text.toList := by
      rw [h.toList_text, hNames]
      simp
    have hSlash : p.anchor.text.toList.getLast? = some '/' := by
      cases hAnchor : p.anchor with
      | here => exact absurd hAnchor h.anchored
      | root => decide
      | doubleRoot => decide
    simp [Catalog.Table.belowText, hText, hSlash, hNames, trail]
  · rw [List.concat_eq_append] at hNames
    have hLast : IsSegment last := h.segments last (by simp [hNames])
    have hText := h.toList_text_concat hNames
    have hSlash : p.text.toList.getLast? ≠ some '/' := by
      intro hSlash
      rw [hText, List.getLast?_append] at hSlash
      cases hEnd : last.toList.getLast? with
      | none => exact hLast.ne_empty (String.toList_inj.mp (List.getLast?_eq_none_iff.mp hEnd))
      | some c =>
        rw [hEnd, Option.some_or, Option.some.injEq] at hSlash
        exact hLast.no_slash (List.mem_of_getLast? (hSlash ▸ hEnd))
    rw [Catalog.Table.belowText, if_neg hSlash, hText, hNames, trail_append, trail_cons]
    simp [trail]

theorem IsRooted.eq_of_text_eq {p q : Path} (hp : p.IsRooted) (hq : q.IsRooted)
    (hAnchor : p.anchor = q.anchor) (hText : p.text = q.text) : p = q := by
  have hBelow : Catalog.Table.belowText p = Catalog.Table.belowText q := by
    rw [Catalog.Table.belowText, Catalog.Table.belowText, hText]
  rw [hp.belowText_eq, hq.belowText_eq, hAnchor] at hBelow
  have hTrail : trail p.names = trail q.names := List.append_cancel_left hBelow
  have hNames : p.names <+: q.names :=
    (trail_prefix_iff hp.segments hq.segments).mp (hTrail ▸ List.prefix_refl _)
  have hNames' : q.names <+: p.names :=
    (trail_prefix_iff hq.segments hp.segments).mp (hTrail ▸ List.prefix_refl _)
  have hEq : p.names = q.names := hNames.eq_of_length_le hNames'.length_le
  cases p
  cases q
  simp_all

theorem text_prefix_belowText (p : Path) :
    p.text.toList <+: Catalog.Table.belowText p := by
  simp only [Catalog.Table.belowText]
  split
  · exact List.prefix_refl _
  · exact List.prefix_append _ _

theorem IsRooted.trail_prefix_text {p : Path} (h : p.IsRooted) {names more : List String}
    (hNames : p.names = names ++ more) (hMore : more ≠ []) :
    p.anchor.text.toList ++ trail names <+: p.text.toList := by
  rcases List.eq_nil_or_concat more with hNil | ⟨front, last, hConcat⟩
  · exact absurd hNil hMore
  · rw [hConcat, List.concat_eq_append, ← List.append_assoc] at hNames
    rw [h.toList_text_concat hNames, trail_append]
    exact ⟨trail front ++ last.toList, by simp⟩

/-- What lies at or below the root in texts: the text of the root, or a text that goes on after a
slash. -/
def Covers (root : Path) (text : String) : Prop :=
  text = root.text ∨ Catalog.Table.belowText root <+: text.toList

/-- Of paths from one root, those at or below a path are the ones whose names go on from its
names. -/
theorem IsRooted.covers_text_iff {root p : Path} (hRoot : root.IsRooted) (h : p.IsRooted)
    (hAnchor : p.anchor = root.anchor) : root.Covers p.text ↔ p.isUnder root = true := by
  rw [Covers, isUnder_iff]
  constructor
  · rintro (hText | hBelow)
    · exact isUnder_iff.mp (h.eq_of_text_eq hRoot hAnchor hText ▸ isUnder_refl root)
    · refine ⟨hAnchor, (trail_prefix_iff hRoot.segments h.segments).mp ?_⟩
      have hTrail := hBelow.trans p.text_prefix_belowText
      rw [hRoot.belowText_eq, h.belowText_eq, hAnchor] at hTrail
      exact (List.prefix_append_right_inj _).mp hTrail
  · rintro ⟨_, more, hNames⟩
    by_cases hMore : more = []
    · left
      rw [text, text, hAnchor, ← hNames, hMore, List.append_nil]
    · right
      rw [hRoot.belowText_eq, ← hAnchor]
      exact h.trail_prefix_text hNames.symm hMore

theorem IsRooted.covers_trans {root p : Path} (hRoot : root.IsRooted) (h : p.IsRooted)
    (hUnder : p.isUnder root = true) {text : String} (hCovers : p.Covers text) :
    root.Covers text := by
  have hp : root.Covers p.text := (hRoot.covers_text_iff h (isUnder_iff.mp hUnder).1).mpr hUnder
  rcases hCovers with rfl | hBelow
  · exact hp
  · right
    rcases hp with hText | hRootBelow
    · rw [Catalog.Table.belowText, hText, ← Catalog.Table.belowText] at hBelow
      exact hBelow
    · exact (hRootBelow.trans p.text_prefix_belowText).trans hBelow

theorem zero_notMem_belowText (p : Path) (h : Char.ofNat 0 ∉ p.text.toList) :
    Char.ofNat 0 ∉ Catalog.Table.belowText p := by
  simp only [Catalog.Table.belowText]
  split
  · exact h
  · simpa using h

theorem IsProper.hasZero_eq_false {p : Path} (h : p.IsProper) : p.hasZero = false := by
  rw [hasZero, List.any_eq_false]
  intro name hName
  simpa [Text.hasZero] using (h name hName).no_zero

theorem IsAbsolute.zero_notMem_text {p : Path} (h : p.IsAbsolute) :
    Char.ofNat 0 ∉ p.text.toList := by
  intro hText
  have hZero := p.text_prefix_belowText.subset hText
  rw [h.isRooted.belowText_eq, List.mem_append] at hZero
  rcases hZero with hZero | hZero
  · cases hAnchor : p.anchor <;> simp [hAnchor, Anchor.text] at hZero
  · obtain ⟨name, hName, hMem⟩ := List.mem_flatMap.mp hZero
    rcases List.mem_append.mp hMem with hMem | hMem
    · exact (h.proper name hName).no_zero hMem
    · exact absurd (List.mem_singleton.mp hMem) (by decide)

end Path

theorem prefix_takeWhile_iff {α : Type} {p : α → Bool} {xs ys : List α}
    (h : ∀ x ∈ xs, p x = true) : xs <+: ys.takeWhile p ↔ xs <+: ys := by
  constructor
  · exact fun hPrefix => hPrefix.trans (List.takeWhile_prefix p)
  · rintro ⟨rest, rfl⟩
    rw [List.takeWhile_append_of_pos h]
    exact List.prefix_append xs _

namespace Catalog.Table

/-- If no zero character cuts the text of the root short, the catalog compares whole texts. -/
theorem atOrBelow_iff {root : Path} (h : Char.ofNat 0 ∉ root.text.toList) (text : String) :
    atOrBelow root text = true ↔ root.Covers text := by
  have hZero : ∀ c ∈ belowText root, decide (c ≠ Char.ofNat 0) = true := by
    intro c hc
    exact decide_eq_true fun hEq => root.zero_notMem_belowText h (hEq ▸ hc)
  rw [atOrBelow, Path.Covers, Bool.or_eq_true, decide_eq_true_eq, List.isPrefixOf_iff_prefix,
    prefix_takeWhile_iff hZero]

theorem isUnder_iff {root : Path} (h : Char.ofNat 0 ∉ root.text.toList) (r : Row) :
    isUnder root r = true ↔ ∃ text, r.cells .path = .text text ∧ root.Covers text := by
  rw [isUnder, Row.path?]
  split
  · next text hText => simp [hText, atOrBelow_iff h]
  · next hText => simpa using fun text hEq => absurd hEq (hText text)

/-- The row is one of the volume, at or below the root. -/
def IsOf (volume : String) (root : Path) (r : Row) : Prop :=
  r.cells .volumeName = .text volume ∧ ∃ text, r.cells .path = .text text ∧ root.Covers text

theorem mem_idsUnder {root : Path} (h : Char.ofNat 0 ∉ root.text.toList) {t : Table}
    {volume : String} {id : Int} :
    id ∈ t.idsUnder volume root ↔ ∃ r ∈ t.rows, IsOf volume root r ∧ r.id = id := by
  rw [idsUnder, List.mem_mergeSort, List.mem_map]
  simp only [List.mem_filter, Bool.and_eq_true, isUnder_iff h, Row.hasText, beq_iff_eq, IsOf,
    and_assoc]

theorem mem_rowsUnder {t : Table} {root : Path} {r : Row} :
    r ∈ t.rowsUnder root ↔ r ∈ t.rows ∧ isUnder root r = true := by
  rw [rowsUnder, List.mem_mergeSort, List.mem_filter]

end Catalog.Table

end MediaIndex
