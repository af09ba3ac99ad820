import Mathlib.Data.List.Sort
import Mathlib.Data.String.Basic
import MediaIndex.Catalog.Store
import MediaIndex.Proofs.PathText
import MediaIndex.Proofs.TableRows

/-!
# Range queries

The queries for what lies at or below a root compare texts, and what a sweep deletes is decided by
them. Where all paths are normal, a text goes on from that of the root exactly if the names of its
path go on from the names of the root, so the queries find the row of the root and the rows that
have it among the directories above them. This holds of every root without a zero character; the
names that a directory can hold have none, but a record may be given one.
-/

namespace MediaIndex

/-- One slash in front, and names each of which leads a step down. -/
structure Path.IsNormal (p : Path) : Prop where
  anchor : p.anchor = .root
  segments : ∀ name ∈ p.names, IsSegment name
  steps : "." ∉ p.names ∧ ".." ∉ p.names

instance : DecidablePred Path.IsNormal := fun p =>
  decidable_of_iff (p.anchor = .root ∧ (∀ name ∈ p.names, IsSegment name) ∧
      "." ∉ p.names ∧ ".." ∉ p.names)
    ⟨fun ⟨hAnchor, hSegments, hSteps⟩ => ⟨hAnchor, hSegments, hSteps⟩,
      fun ⟨hAnchor, hSegments, hSteps⟩ => ⟨hAnchor, hSegments, hSteps⟩⟩

theorem Path.IsNormal.isRooted {p : Path} (h : p.IsNormal) : p.IsRooted :=
  ⟨h.anchor ▸ nofun, h.segments⟩

namespace Catalog

def Row.pathText (r : Row) : String := r.path?.getD ""

/-- The path of the row is the root, or the root is one of the directories above it. -/
def Row.IsWithin (root : Path) (r : Row) : Prop :=
  ∃ p : Path, p.IsNormal ∧ r.cells .path = .text p.text ∧ (root = p ∨ root ∈ p.parents)

namespace Table

def IsNormal (t : Table) : Prop :=
  ∀ r ∈ t.rows, ∃ p : Path, p.IsNormal ∧ r.cells .path = .text p.text

variable {t : Table} {root : Path} {volume : String} {r : Row}

/-- Texts that go on from the text of the root are those of paths with names that go on from its
names. -/
theorem isUnder_iff_isWithin (hRoot : root.IsNormal) (hZero : Char.ofNat 0 ∉ root.text.toList)
    (ht : t.IsNormal) (hr : r ∈ t.rows) : isUnder root r = true ↔ r.IsWithin root := by
  have hCovers : ∀ {p : Path}, p.IsNormal →
      (root.Covers p.text ↔ (root = p ∨ root ∈ p.parents)) := by
    intro p hp
    rw [hRoot.isRooted.covers_text_iff hp.isRooted (hp.anchor.trans hRoot.anchor.symm),
      Path.mem_parents_iff]
  rw [isUnder_iff hZero]
  constructor
  · rintro ⟨text, hText, hBelow⟩
    obtain ⟨p, hp, hPath⟩ := ht r hr
    obtain rfl : text = p.text := Cell.text.inj (hText.symm.trans hPath)
    exact ⟨p, hp, hPath, (hCovers hp).mp hBelow⟩
  · rintro ⟨p, hp, hPath, hAbove⟩
    exact ⟨p.text, hPath, (hCovers hp).mpr hAbove⟩

theorem Sound.idsUnder_decreasing (h : t.Sound) : (t.idsUnder volume root).Pairwise (· > ·) := by
  have hDistinct : (t.idsUnder volume root).Nodup :=
    (List.mergeSort_perm _ _).nodup_iff.mpr
      ((h.increasing.imp Int.ne_of_lt).sublist (List.filter_sublist.map _))
  exact (List.sortedGE_mergeSort.sortedGT_of_nodup hDistinct).pairwise

theorem path_of_isUnder (h : isUnder root r = true) : r.cells .path = .text r.pathText := by
  unfold isUnder Row.path? at h
  split at h
  · next text hText => rw [Row.pathText, Row.path?, hText, Option.getD_some]
  · cases h

/-- The order of the rows is that of the texts, for all of them have texts for paths. -/
theorem Sound.rowsUnder_increasing (h : t.Sound) :
    ((t.rowsUnder root).map (·.pathText)).Pairwise (· < ·) := by
  have hText : ∀ r ∈ t.rows.filter (isUnder root), r.cells .path = .text r.pathText :=
    fun r hr => path_of_isUnder (List.mem_filter.mp hr).2
  have hSort : (t.rowsUnder root).map (·.pathText) =
      ((t.rows.filter (isUnder root)).map (·.pathText)).mergeSort (· ≤ ·) := by
    refine List.map_mergeSort fun a ha b hb => ?_
    simp only [hText a ha, hText b hb, Cell.lt, ← decide_not, not_lt]
  have hDistinct : ((t.rows.filter (isUnder root)).map (·.pathText)).Nodup := by
    refine List.Nodup.of_map Cell.text ?_
    rw [List.map_map]
    have hPaths : ((t.rows.filter (isUnder root)).map (·.cells .path)).Nodup :=
      h.distinct.sublist (List.filter_sublist.map _)
    rwa [List.map_congr_left hText] at hPaths
  rw [hSort]
  exact (List.sortedLE_mergeSort.sortedLT_of_nodup
    ((List.mergeSort_perm _ _).nodup_iff.mpr hDistinct)).pairwise

end Table

/-- In a catalog of normal paths the range queries go by names: at or below a normal root without a
zero character are the row at the root and the rows that have it among their directories. The
numbers of those of one volume come in decreasing order, and the rows of all volumes by the
characters of their paths. -/
theorem Store.ranges_go_by_names {s : Store} {table : Table} {root : Path}
    (hRead : s.readable "id" = .ok table) (hSound : table.Sound) (hNormal : table.IsNormal)
    (hRoot : root.IsNormal) (hZero : Char.ofNat 0 ∉ root.text.toList) (volume : String) :
    (∃ ids, (s.idsUnder volume root).1 = .ok ids ∧ ids.Pairwise (· > ·) ∧
      ∀ id, id ∈ ids ↔ ∃ r ∈ table.rows, r.id = id ∧ r.cells .volumeName = .text volume ∧
        r.IsWithin root) ∧
    ∃ rows, (s.rowsUnder root).1 = .ok rows ∧ (rows.map (·.pathText)).Pairwise (· < ·) ∧
      ∀ r, r ∈ rows ↔ r ∈ table.rows ∧ r.IsWithin root := by
  constructor
  · refine ⟨table.idsUnder volume root, ?_, hSound.idsUnder_decreasing, fun id => ?_⟩
    · rw [Store.idsUnder, Store.query, hRead]
      rfl
    · rw [Table.mem_idsUnder hZero]
      refine exists_congr fun r => and_congr_right fun hr => ?_
      rw [Table.IsOf, ← Table.isUnder_iff hZero, Table.isUnder_iff_isWithin hRoot hZero hNormal hr]
      exact and_comm
  · refine ⟨table.rowsUnder root, ?_, hSound.rowsUnder_increasing, fun r => ?_⟩
    · rw [Store.rowsUnder, Store.query, hRead]
      rfl
    · rw [Table.mem_rowsUnder]
      exact and_congr_right (Table.isUnder_iff_isWithin hRoot hZero hNormal)

def cellsAt (volume path : String) : Column → Cell
  | .volumeName => .text volume
  | .path => .text path
  | _ => .null

def siblingTable : Table :=
  ⟨[⟨1, cellsAt "/" "/m", ""⟩, ⟨2, cellsAt "/" "/m/b", ""⟩, ⟨3, cellsAt "/" "/mm/a", ""⟩,
    ⟨4, cellsAt "/v" "/m/a", ""⟩], 4⟩

/-- A directory is found with what lies in it on its own volume, last number first, and with what
lies in it on any volume, by paths. -/
theorem ranges_go_by_names_siblings : ∃ ids rows,
    ((Store.ofTable siblingTable 0).idsUnder "/" ⟨.root, ["m"]⟩).1 = .ok ids ∧
    ids.Pairwise (· > ·) ∧ 1 ∈ ids ∧ 2 ∈ ids ∧ 4 ∉ ids ∧
    ((Store.ofTable siblingTable 0).rowsUnder ⟨.root, ["m"]⟩).1 = .ok rows ∧
    (rows.map (·.pathText)).Pairwise (· < ·) ∧ ⟨4, cellsAt "/v" "/m/a", ""⟩ ∈ rows := by
  have hSound : siblingTable.Sound := ⟨by decide, by decide, by decide⟩
  have hM : (⟨.root, ["m"]⟩ : Path).IsNormal := by decide
  have hB : (⟨.root, ["m", "b"]⟩ : Path).IsNormal := by decide
  have hA : (⟨.root, ["m", "a"]⟩ : Path).IsNormal := by decide
  have hNormal : siblingTable.IsNormal := by
    simp only [Table.IsNormal, siblingTable, List.forall_mem_cons, List.not_mem_nil, false_imp_iff,
      implies_true, and_true]
    exact ⟨⟨_, hM, rfl⟩, ⟨_, hB, rfl⟩, ⟨⟨.root, ["mm", "a"]⟩, by decide, rfl⟩,
      ⟨_, hA, rfl⟩⟩
  obtain ⟨⟨ids, hIds, hDecreasing, hMem⟩, rows, hRows, hIncreasing, hMemRows⟩ :=
    Store.ranges_go_by_names (s := .ofTable siblingTable 0) rfl hSound hNormal hM (by decide) "/"
  refine ⟨ids, rows, hIds, hDecreasing, ?_, ?_, ?_, hRows, hIncreasing, ?_⟩
  · exact (hMem 1).mpr ⟨_, List.mem_cons_self, rfl, rfl, _, hM, rfl, .inl rfl⟩
  · exact (hMem 2).mpr ⟨⟨2, cellsAt "/" "/m/b", ""⟩, by simp [siblingTable], rfl, rfl, _, hB, rfl,
      .inr (by decide)⟩
  · rw [hMem]
    rintro ⟨r, hr, hId, hVolume, -⟩
    simp only [siblingTable, List.mem_cons, List.not_mem_nil, or_false] at hr
    rcases hr with rfl | rfl | rfl | rfl <;> simp [cellsAt] at hId hVolume
  · exact (hMemRows _).mpr ⟨by simp [siblingTable], _, hA, rfl, .inr (by decide)⟩

def cutTable : Table := ⟨[⟨1, cellsAt "/" "/a\x00b/c", ""⟩], 1⟩

/-- A root is not found above a record if a zero character cuts its text short. -/
theorem zero_cuts_ranges :
    cutTable.Sound ∧ cutTable.IsNormal ∧ (⟨.root, ["a\x00b"]⟩ : Path).IsNormal ∧
    (∃ r ∈ cutTable.rows, r.id = 1 ∧ r.cells .volumeName = .text "/" ∧
      r.IsWithin ⟨.root, ["a\x00b"]⟩) ∧
    ((Store.ofTable cutTable 0).idsUnder "/" ⟨.root, ["a\x00b"]⟩).1 = .ok [] ∧
    ((Store.ofTable cutTable 0).rowsUnder ⟨.root, ["a\x00b"]⟩).1 = .ok [] := by
  have hPath : (⟨.root, ["a\x00b", "c"]⟩ : Path).IsNormal := by decide
  have hIds : (cutTable.rows.filter fun r =>
      r.hasText .volumeName "/" && Table.isUnder ⟨.root, ["a\x00b"]⟩ r) = [] := by decide
  have hRows : cutTable.rows.filter (Table.isUnder ⟨.root, ["a\x00b"]⟩) = [] := by decide
  refine ⟨⟨by decide, by decide, by decide⟩, ?_, by decide, ?_, ?_, ?_⟩
  · intro r hr
    obtain rfl := List.mem_singleton.mp hr
    exact ⟨_, hPath, rfl⟩
  · exact ⟨_, List.mem_cons_self, rfl, rfl, _, hPath, rfl, .inr (by decide)⟩
  · change Except.ok (cutTable.idsUnder "/" ⟨.root, ["a\x00b"]⟩) = .ok []
    rw [Table.idsUnder, hIds, List.map_nil, List.mergeSort_nil]
  · change Except.ok (cutTable.rowsUnder ⟨.root, ["a\x00b"]⟩) = .ok []
    rw [Table.rowsUnder, hRows, List.mergeSort_nil]

end Catalog

end MediaIndex
