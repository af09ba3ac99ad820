import MediaIndex.Disk.Manifest
import MediaIndex.Proofs.Entries

/-!
# Trees that manifests state

A manifest puts one node after the other into a tree that starts out empty. Each stands at the
absolute form of the path on its line, which names a place that a disk can have as long as no zero
character is on the line, and a node that is put where another one stands takes its place. So the
trees that the program reads are well formed.
-/

namespace MediaIndex.Disk

namespace Tree

variable {t : Tree}

theorem wellFormed_empty : empty.WellFormed := ⟨by simp [empty], .nil⟩

theorem WellFormed.remove (h : t.WellFormed) (place : Place) : (t.remove place).WellFormed where
  named other hOther := by
    obtain ⟨entry, hEntry, rfl⟩ := List.mem_map.mp hOther
    exact h.named _ (List.mem_map_of_mem (List.mem_filter.mp hEntry).1)
  distinct := h.distinct.sublist (List.filter_sublist.map _)

theorem WellFormed.setNode (h : t.WellFormed) {place : Place} (hPlace : ∀ name ∈ place, IsName name)
    (n : Node) : (t.setNode place n).WellFormed := by
  unfold Tree.setNode
  split
  · exact ⟨h.named, h.distinct⟩
  · split
    · have hPlaces : (t.nodes.map fun entry => if entry.1 = place then (place, n) else entry).map
          (·.1) = t.nodes.map (·.1) := by
        rw [List.map_map]
        apply List.map_congr_left
        intro entry _
        simp only [Function.comp_apply]
        split
        · next hSame => exact hSame.symm
        · rfl
      exact ⟨hPlaces ▸ h.named, hPlaces ▸ h.distinct⟩
    · next hNone =>
      have hFresh : place ∉ t.nodes.map (·.1) := by
        intro hMem
        obtain ⟨entry, hEntry, rfl⟩ := List.mem_map.mp hMem
        rw [Option.not_isSome_iff_eq_none, List.lookup_eq_none_iff] at hNone
        simpa using hNone entry hEntry
      constructor
      · intro other hOther
        rw [List.map_append, List.mem_append] at hOther
        rcases hOther with hOther | hOther
        · exact h.named other hOther
        · exact (List.mem_singleton.mp hOther) ▸ hPlace
      · rw [List.map_append, List.nodup_append]
        refine ⟨h.distinct, List.nodup_singleton _, ?_⟩
        intro other hOther new hNew
        rw [List.map_singleton, List.mem_singleton] at hNew
        subst hNew
        exact fun hEq => hFresh (hEq ▸ hOther)

theorem WellFormed.addDirectories (h : t.WellFormed) {places : List Place}
    (hPlaces : ∀ place ∈ places, ∀ name ∈ place, IsName name) :
    (t.addDirectories places).WellFormed := by
  unfold Tree.addDirectories
  induction places generalizing t with
  | nil => exact h
  | cons place places ih =>
    rw [List.forall_mem_cons] at hPlaces
    rw [List.foldl_cons]
    by_cases hSome : (t.node? place).isSome = true
    · rw [if_pos hSome]
      exact ih h hPlaces.2
    · rw [if_neg hSome]
      exact ih (h.setNode hPlaces.1 _) hPlaces.2

/-- Trees grow by nodes put at places that a disk can have. -/
theorem WellFormed.put (h : t.WellFormed) {place : Place} (hPlace : ∀ name ∈ place, IsName name)
    (n : Node) : (t.put place n).WellFormed := by
  apply WellFormed.setNode _ hPlace
  apply WellFormed.addDirectories
  · split
    · exact h
    · exact h.remove place
  · intro above hAbove name hName
    obtain ⟨count, -, rfl⟩ := List.mem_map.mp hAbove
    exact hPlace name (List.mem_of_mem_take hName)

end Tree

namespace Manifest

variable {t made : Tree}

/-- The path that a line states is one of its fields. -/
theorem mem_of_node? {fields : List String} {stated : String × Node}
    (h : node? fields = some stated) : stated.1 ∈ fields := by
  unfold node? at h
  split at h
  · obtain ⟨size, -, h⟩ := Option.bind_eq_some_iff.mp h
    obtain ⟨second, -, h⟩ := Option.bind_eq_some_iff.mp h
    obtain ⟨node, -, h⟩ := Option.bind_eq_some_iff.mp h
    cases h
    simp
  all_goals cases h
  all_goals simp

theorem wellFormed_putLine? (h : t.WellFormed) {line : String}
    (hLine : Char.ofNat 0 ∉ line.toList) (hPut : putLine? t line = some made) :
    made.WellFormed := by
  obtain ⟨stated, hNode, rfl⟩ := Option.map_eq_some_iff.mp hPut
  obtain ⟨segment, hSegment, hPath⟩ := List.mem_map.mp (mem_of_node? hNode)
  have hText : Char.ofNat 0 ∉ stated.1.toList := by
    rw [← hPath, String.toList_ofList]
    exact fun hZero => hLine ((Path.mem_splitAt hSegment).2 hZero)
  exact h.put (fun name hName => Path.isProper_ofText hText name (Path.mem_settle hName).1) _

theorem wellFormed_putAll (h : t.WellFormed) {lines : List String}
    (hLines : ∀ line ∈ lines, Char.ofNat 0 ∉ line.toList)
    (hPut : putAll t lines = .ok made) : made.WellFormed := by
  induction lines generalizing t with
  | nil =>
    cases hPut
    exact h
  | cons line lines ih =>
    rw [List.forall_mem_cons] at hLines
    rw [putAll] at hPut
    split at hPut
    · next between hBetween =>
      exact ih (wellFormed_putLine? h hLines.1 hBetween) hLines.2 hPut
    · cases hPut

/-- The tree that a manifest states is well formed. -/
theorem wellFormed_tree {lines : List String}
    (hLines : ∀ line ∈ lines, Char.ofNat 0 ∉ line.toList) (hTree : tree lines = .ok made) :
    made.WellFormed :=
  wellFormed_putAll Tree.wellFormed_empty
    (fun line hLine => hLines line (List.mem_filter.mp hLine).1) hTree

end Manifest

end MediaIndex.Disk
