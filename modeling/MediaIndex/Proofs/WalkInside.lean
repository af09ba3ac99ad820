import MediaIndex.Proofs.PassLedger

/-!
# Walks from inside a walk

A walk that starts at an entry which an earlier walk has visited visits and reports what that walk
did from there on, as long as the entry can itself be examined: a link is read through by the
directory that lists it, but not when a walk starts at it. What hides a location is the same from
both starts.
-/

namespace MediaIndex.Path

theorem isUnder_parent (p : Path) : p.isUnder p.parent = true :=
  isUnder_iff.mpr ⟨rfl, List.dropLast_prefix p.names⟩

theorem eq_or_parent_isUnder {p q : Path} (h : p.isUnder q = true) :
    q = p ∨ p.parent.isUnder q = true := by
  obtain ⟨hAnchor, hNames⟩ := isUnder_iff.mp h
  rcases Nat.lt_or_ge q.names.length p.names.length with hLt | hGe
  · refine .inr (isUnder_iff.mpr ⟨hAnchor, List.prefix_of_prefix_length_le hNames
      (List.dropLast_prefix p.names) ?_⟩)
    have hLength : p.parent.names.length = p.names.length - 1 := List.length_dropLast
    omega
  · left
    refine isUnder_antisymm (isUnder_iff.mpr ⟨hAnchor.symm, ?_⟩) h
    exact (hNames.eq_of_length_le hGe).symm ▸ List.prefix_refl _

theorem isUnder_or_isUnder {p q r : Path} (hq : p.isUnder q = true) (hr : p.isUnder r = true) :
    q.isUnder r = true ∨ r.isUnder q = true := by
  simp only [isUnder_iff] at *
  rcases List.prefix_or_prefix_of_prefix hq.2 hr.2 with h | h
  · exact .inr ⟨hr.1.symm.trans hq.1, h⟩
  · exact .inl ⟨hq.1.symm.trans hr.1, h⟩

end MediaIndex.Path

namespace MediaIndex.Walk

open Disk

variable {t : Tree} {a b : Attributes}

theorem anyHidden_eq_false_iff {directories : List Path} :
    anyHidden t directories = .ok false ↔ ∀ d ∈ directories, isHidden t d = .ok false := by
  induction directories with
  | nil => simp [anyHidden]
  | cons d rest ih =>
    rw [anyHidden, List.forall_mem_cons, ← ih]
    cases isHidden t d with
    | error fault => simp [bind, Except.bind]
    | ok hidden => cases hidden <;> simp [bind, Except.bind, pure, Except.pure]

/-- A location is visible if every directory above it is. -/
theorem isHiddenLocation_eq_false_iff {p : Path} :
    isHiddenLocation t p = .ok false ↔ ∀ d, p.isUnder d = true → isHidden t d = .ok false := by
  simp only [isHiddenLocation, anyHidden_eq_false_iff, List.mem_cons, Path.mem_parents_iff]

theorem Reaches.isHidden_eq_false (h : Reaches t a b) {d : Path} (hBelow : b.path.isUnder d = true)
    (hAbove : d.isUnder a.path = true) (hDirectory : b.isDirectory = true ∨ d ≠ b.path) :
    isHidden t d = .ok false := by
  induction h with
  | @here a hOpen =>
    have hEq : d = a.path := Path.isUnder_antisymm hAbove hBelow
    rw [hEq]
    exact hOpen (hDirectory.resolve_right fun hNe => hNe hEq)
  | @inside a b c hADirectory hOpen hc hRest ih =>
    by_cases hEq : d = a.path
    · rw [hEq]
      exact hOpen hADirectory
    · refine ih hBelow ?_ hDirectory
      rcases Path.isUnder_or_isUnder hBelow hRest.isUnder with hUnder | hUnder
      · exact hUnder
      · rcases Path.eq_or_parent_isUnder hUnder with rfl | hParent
        · exact Path.isUnder_refl _
        · obtain ⟨name, hPath⟩ := exists_child_of_mem_children hc
          rw [hPath, Path.parent_child] at hParent
          exact absurd (Path.isUnder_antisymm hAbove hParent) hEq

theorem Reaches.preorder_subset (h : Reaches t a b) : preorder t b ⊆ preorder t a := by
  induction h with
  | here => exact List.Subset.refl _
  | @inside a b c hDirectory hOpen hc hRest ih =>
    rw [preorder_eq t a, if_pos hDirectory, hOpen hDirectory]
    intro event hEvent
    exact List.mem_append_left _ (List.mem_append_right _ (List.mem_flatMap.mpr ⟨c, hc, ih hEvent⟩))

/-- An entry is the one at its own path, if it can itself be examined. -/
theorem attributes_of_mem_visits_of_statOwn {root : Path} (h : b ∈ visits t root)
    {target : Place × Node} (hOwn : t.statOwn b.path = .ok target) :
    t.attributes b.path = .ok b := by
  obtain ⟨a, hRoot, hb⟩ := attributes_of_mem_visits h
  rcases (mem_below_iff.mp hb).eq_or_mem_children with rfl | ⟨p, hc⟩
  · rw [Tree.attributes_path hRoot]
    exact hRoot
  · exact attributes_of_mem_children hc hOwn

section

variable {root : Path} (h : b ∈ visits t root) (hSelf : t.attributes b.path = .ok b)

include h hSelf

theorem mem_visits_inside_iff (hTree : t.WellFormed) {c : Attributes} :
    c ∈ visits t b.path ↔ c ∈ visits t root ∧ c.path.isUnder b.path = true := by
  obtain ⟨a, hRoot, hb⟩ := attributes_of_mem_visits h
  rw [visits_of_attributes hSelf, visits_of_attributes hRoot, mem_below_iff, mem_below_iff]
  rw [mem_below_iff] at hb
  constructor
  · intro hc
    exact ⟨hb.trans hc, hc.isUnder⟩
  · rintro ⟨hc, hUnder⟩
    exact hb.of_isUnder hTree hc hUnder

theorem walk_inside_subset : walk t b.path ⊆ walk t root := by
  obtain ⟨a, hRoot, hb⟩ := attributes_of_mem_visits h
  rw [walk_of_attributes hSelf, walk_of_attributes hRoot]
  exact (mem_below_iff.mp hb).preorder_subset

end

end MediaIndex.Walk

namespace MediaIndex.Reconcile.Pass

open Disk (Tree)

variable {t : Tree} {p p' : Pass}

theorem isHidden_congr (h : p'.root = p.root) : p'.isHidden t = p.isHidden t := by
  rw [isHidden, isHidden, startDirectory, startDirectory, h]

theorem visited_congr (h : p'.root = p.root) : p'.visited t = p.visited t := by
  rw [visited, visited, isHidden_congr h, h]

theorem mem_visited_iff {a : Disk.Attributes} :
    a ∈ p.visited t ↔ p.isHidden t = .ok false ∧ a ∈ Walk.visits t p.root := by
  unfold visited
  split
  · next h => simp [h]
  · next h =>
    simp only [List.not_mem_nil, false_iff, not_and]
    exact fun hHidden => absurd hHidden h

theorem isHidden_above (h : p.isHidden t = .ok false) {d : Path}
    (hAbove : p.root.parent.isUnder d = true) : Walk.isHidden t d = .ok false := by
  obtain ⟨start, hStart, hLocation⟩ := bind_eq_ok_iff.mp h
  apply Walk.isHiddenLocation_eq_false_iff.mp hLocation d
  obtain ⟨isDirectory, -, hStart⟩ := bind_eq_ok_iff.mp hStart
  cases isDirectory with
  | true =>
    rw [← Except.ok.inj hStart]
    exact Path.isUnder_trans (Path.isUnder_parent p.root) hAbove
  | false =>
    rw [← Except.ok.inj hStart]
    exact hAbove

/-- A pass from a visited entry is as visible as the pass that visited it. -/
theorem isHidden_inside {b : Disk.Attributes} (hb : b ∈ p.visited t) (hFrom : p'.root = b.path) :
    p'.isHidden t = .ok false := by
  obtain ⟨hHidden, hVisits⟩ := mem_visited_iff.mp hb
  by_cases hSame : b.path = p.root
  · rw [isHidden_congr (hFrom.trans hSame), hHidden]
  obtain ⟨a, hRoot, hBelow⟩ := Walk.attributes_of_mem_visits hVisits
  have hReaches := Walk.mem_below_iff.mp hBelow
  have hPath := Tree.attributes_path hRoot
  obtain ⟨directory, hChild⟩ : ∃ directory, b ∈ Walk.children t directory := by
    apply hReaches.eq_or_mem_children.resolve_left
    rintro rfl
    exact hSame hPath
  obtain ⟨target, hStat, hDirectory⟩ := Walk.stat_of_mem_children hChild
  have hStart : p'.startDirectory t = .ok (if b.isDirectory then b.path else b.path.parent) := by
    simp [startDirectory, hFrom, Tree.isDirectory?_of_stat hStat, hDirectory, bind, Except.bind,
      pure, Except.pure]
  rw [isHidden, hStart]
  refine Walk.isHiddenLocation_eq_false_iff.mpr fun d hStartUnder => ?_
  have hUnder : b.path.isUnder d = true ∧ (b.isDirectory = true ∨ d ≠ b.path) := by
    split at hStartUnder
    · next hIsDirectory => exact ⟨hStartUnder, .inl hIsDirectory⟩
    · refine ⟨Path.isUnder_trans (Path.isUnder_parent _) hStartUnder, .inr ?_⟩
      rintro rfl
      obtain ⟨name, hName⟩ := Walk.exists_child_of_mem_children hChild
      have hLength := (Path.isUnder_iff.mp hStartUnder).2.length_le
      rw [hName, Path.parent_child, Path.child, List.length_append] at hLength
      exact Nat.not_succ_le_self _ hLength
  -- The walk has opened what lies between both roots; what is above, the first pass has looked at.
  have hRootUnder := hReaches.isUnder
  rcases Path.isUnder_or_isUnder hUnder.1 hRootUnder with hInside | hOutside
  · exact hReaches.isHidden_eq_false hUnder.1 hInside hUnder.2
  · rcases Path.eq_or_parent_isUnder hOutside with rfl | hAbove
    · exact hReaches.isHidden_eq_false hUnder.1 (Path.isUnder_refl _) hUnder.2
    · exact isHidden_above hHidden (hPath ▸ hAbove)

end MediaIndex.Reconcile.Pass
