import MediaIndex.Proofs.PathText

/-!
# Reading a text as a path

An absolute path is read back from its text. A text that the catalog takes to be at or below an
absolute path, because of what stands in front of it, is read as that path or as one whose names go
on from its names.
-/

namespace MediaIndex.Path

theorem splitAt_of_notMem {sep : Char} {cs : List Char} (h : sep ∉ cs) :
    Text.splitAt sep cs = [cs] := by
  induction cs with
  | nil => rfl
  | cons c cs ih =>
    rw [Text.splitAt, if_neg (List.ne_of_not_mem_cons h).symm,
      ih (List.not_mem_of_not_mem_cons h)]

theorem splitAt_append_cons {sep : Char} {cs : List Char} (h : sep ∉ cs) (more : List Char) :
    Text.splitAt sep (cs ++ sep :: more) = cs :: Text.splitAt sep more := by
  induction cs with
  | nil => rw [List.nil_append, Text.splitAt, if_pos rfl]
  | cons c cs ih =>
    rw [List.cons_append, Text.splitAt, if_neg (List.ne_of_not_mem_cons h).symm,
      ih (List.not_mem_of_not_mem_cons h)]

/-- The names among the segments of a text. -/
def namesAmong (cs : List Char) : List String :=
  ((Text.splitAt '/' cs).map String.ofList).filter fun name => name ≠ "" ∧ name ≠ "."

theorem namesAmong_slash (cs : List Char) : namesAmong ('/' :: cs) = namesAmong cs := by
  rw [namesAmong, Text.splitAt, if_pos rfl]
  rfl

theorem namesAmong_cons_slash {name : String} (h : IsName name) (cs : List Char) :
    namesAmong (name.toList ++ '/' :: cs) = name :: namesAmong cs := by
  rw [namesAmong, splitAt_append_cons h.no_slash, List.map_cons, String.ofList_toList,
    List.filter_cons_of_pos (by simp [h.ne_empty, h.ne_dot])]
  rfl

theorem namesAmong_name {name : String} (h : IsName name) : namesAmong name.toList = [name] := by
  simp [namesAmong, splitAt_of_notMem h.no_slash, h.ne_empty, h.ne_dot]

theorem namesAmong_trail {names : List String} (h : ∀ name ∈ names, IsName name) (cs : List Char) :
    namesAmong (trail names ++ cs) = names ++ namesAmong cs := by
  induction names with
  | nil => rfl
  | cons name rest ih =>
    rw [List.forall_mem_cons] at h
    rw [trail_cons, List.append_assoc, List.cons_append, namesAmong_cons_slash h.1, ih h.2,
      List.cons_append]

theorem namesAmong_anchor (anchor : Anchor) (cs : List Char) :
    namesAmong (anchor.text.toList ++ cs) = namesAmong cs := by
  cases anchor with
  | here => rfl
  | root => exact namesAmong_slash cs
  | doubleRoot => exact (namesAmong_slash ('/' :: cs)).trans (namesAmong_slash cs)

theorem ofChars_anchor {anchor : Anchor} {cs : List Char} (h : cs.head? ≠ some '/') :
    Anchor.ofChars (anchor.text.toList ++ cs) = anchor := by
  have hNone : cs.takeWhile (· == '/') = [] := by
    cases cs with
    | nil => rfl
    | cons c cs =>
      have hSlash : c ≠ '/' := fun hEq => h (congrArg some hEq)
      simp [hSlash]
  cases anchor <;> simp [Anchor.ofChars, Anchor.text, hNone]

theorem head?_name_append {name : String} (h : IsName name) (cs : List Char) :
    (name.toList ++ cs).head? ≠ some '/' := by
  cases hChars : name.toList with
  | nil => exact absurd (String.toList_inj.mp hChars) h.ne_empty
  | cons c chars =>
    intro hSlash
    have hEq : c = '/' := Option.some.inj hSlash
    exact h.no_slash (by simp [hChars, hEq])

theorem head?_trail_append {names : List String} (h : ∀ name ∈ names, IsName name)
    (hSome : names ≠ []) (cs : List Char) : (trail names ++ cs).head? ≠ some '/' := by
  cases names with
  | nil => exact absurd rfl hSome
  | cons name rest =>
    rw [trail_cons, List.append_assoc]
    exact head?_name_append (h name List.mem_cons_self) _

theorem ofText_of_toList {text : String} {anchor : Anchor} {cs : List Char}
    (hText : text.toList = anchor.text.toList ++ cs) (hHead : cs.head? ≠ some '/') :
    ofText text = ⟨anchor, namesAmong cs⟩ := by
  rw [ofText, namesOf, ← namesAmong, hText, namesAmong_anchor, ofChars_anchor hHead]

theorem ofText_of_trail {text : String} {anchor : Anchor} {names : List String} {cs : List Char}
    (hNames : ∀ name ∈ names, IsName name) (hSome : names ≠ [])
    (hText : text.toList = anchor.text.toList ++ (trail names ++ cs)) :
    ofText text = ⟨anchor, names ++ namesAmong cs⟩ := by
  rw [ofText_of_toList hText (head?_trail_append hNames hSome cs), namesAmong_trail hNames]

/-- An absolute path is what its text is read as. -/
theorem IsAbsolute.ofText_text {p : Path} (h : p.IsAbsolute) : ofText p.text = p := by
  rcases List.eq_nil_or_concat p.names with hNames | ⟨front, last, hNames⟩
  · have hText : p.text.toList = p.anchor.text.toList ++ [] := by
      rw [h.isRooted.toList_text, hNames]
      rfl
    rw [ofText_of_toList hText (by simp)]
    cases p
    simp_all [namesAmong, Text.splitAt]
  · rw [List.concat_eq_append] at hNames
    have hProper := h.proper
    rw [Path.IsProper, hNames, List.forall_mem_append, List.forall_mem_singleton] at hProper
    have hText := h.isRooted.toList_text_concat hNames
    rw [List.append_assoc] at hText
    have hHead : (trail front ++ last.toList).head? ≠ some '/' := by
      cases front with
      | nil => simpa [trail] using head?_name_append hProper.2 []
      | cons name rest => exact head?_trail_append hProper.1 (List.cons_ne_nil name rest) _
    rw [ofText_of_toList hText hHead, namesAmong_trail hProper.1, namesAmong_name hProper.2,
      ← hNames]

/-! ## Texts of paths below a path -/

/-- A text is read as the path or as one below it. Whatever starts with a slash lies below a path
without names. -/
structure Encloses (root : Path) (text : String) : Prop where
  names : root.names <+: (ofText text).names
  anchor : (ofText text).anchor = root.anchor ∨ root.names = [] ∧ (ofText text).anchor ≠ .here

theorem anchor_ofText_ne_here {text : String} {cs : List Char} (h : text.toList = '/' :: cs) :
    (ofText text).anchor ≠ .here := by
  rw [ofText, h]
  unfold Anchor.ofChars
  split
  · next hLength => simp at hLength
  · exact Anchor.noConfusion
  · exact Anchor.noConfusion

/-- What the catalog sees at or below a path in the texts lies there. -/
theorem IsAbsolute.encloses_of_covers {root : Path} (h : root.IsAbsolute) {text : String}
    (hCovers : root.Covers text) : root.Encloses text := by
  rcases hCovers with rfl | ⟨rest, hBelow⟩
  · exact ⟨h.ofText_text.symm ▸ List.prefix_refl _, .inl (congrArg (·.anchor) h.ofText_text)⟩
  · rw [h.isRooted.belowText_eq, List.append_assoc] at hBelow
    by_cases hSome : root.names = []
    · refine ⟨hSome ▸ List.nil_prefix, .inr ⟨hSome, ?_⟩⟩
      cases hAnchor : root.anchor with
      | here => exact absurd hAnchor h.anchored
      | root => exact anchor_ofText_ne_here (by rw [← hBelow, hAnchor]; rfl)
      | doubleRoot => exact anchor_ofText_ne_here (by rw [← hBelow, hAnchor]; rfl)
    · have hRead := ofText_of_trail h.proper hSome hBelow.symm
      exact ⟨hRead.symm ▸ List.prefix_append _ _, .inl (congrArg (·.anchor) hRead)⟩

end MediaIndex.Path
