import MediaIndex.Catalog.Batch
import Mathlib.Data.List.Nodup

/-!
# Rows of a table by their paths

A sound table has one row for each path and numbers no row above its counter. Such a table is known
by what it has at each path: writing a record settles one path and leaves the others, deleting a
number takes the row that has it. From this follows what becomes of each path when a batch writes
records, and when a batch deletes numbers.
-/

namespace MediaIndex.Catalog

namespace Row

/-- The row keeps the number and the date of the one that stood at its path; where there was none it
has a number never used before. -/
def Inherits (r : Row) (old : Option Row) (counter : Int) : Prop :=
  match old with
  | some o => r.id = o.id ∧ r.added = o.added
  | none => counter < r.id

theorem Inherits.mono {r : Row} {old : Option Row} {low high : Int} (h : r.Inherits old high)
    (hLe : low ≤ high) : r.Inherits old low := by
  cases old with
  | none => exact Int.lt_of_le_of_lt hLe h
  | some o => exact h

end Row

namespace Table

/-- The numbers increase along the rows and stay within the counter, and no two rows have one
path. -/
structure Sound (t : Table) : Prop where
  increasing : (t.rows.map (·.id)).Pairwise (· < ·)
  counted : ∀ r ∈ t.rows, r.id ≤ t.counter
  distinct : (t.rows.map fun r => r.cells .path).Nodup

theorem sound_empty : empty.Sound := ⟨.nil, by simp [empty], .nil⟩

variable {t : Table}

theorem Sound.eq_of_path_eq (h : t.Sound) {r s : Row} (hr : r ∈ t.rows) (hs : s ∈ t.rows)
    (hPath : r.cells .path = s.cells .path) : r = s :=
  List.inj_on_of_nodup_map h.distinct hr hs hPath

theorem Sound.eq_of_id_eq (h : t.Sound) {r s : Row} (hr : r ∈ t.rows) (hs : s ∈ t.rows)
    (hId : r.id = s.id) : r = s :=
  List.inj_on_of_nodup_map (h.increasing.imp Int.ne_of_lt) hr hs hId

theorem mem_of_rowOf?_eq_some {c : Cell} {r : Row} (h : t.rowOf? c = some r) :
    r ∈ t.rows ∧ r.cells .path = c :=
  ⟨List.mem_of_find?_eq_some h, by simpa using List.find?_some h⟩

theorem rowOf?_eq_none_iff {c : Cell} : t.rowOf? c = none ↔ ∀ r ∈ t.rows, r.cells .path ≠ c := by
  simp [rowOf?]

theorem Sound.rowOf?_eq_some_iff (h : t.Sound) {c : Cell} {r : Row} :
    t.rowOf? c = some r ↔ r ∈ t.rows ∧ r.cells .path = c := by
  constructor
  · exact mem_of_rowOf?_eq_some
  · rintro ⟨hr, rfl⟩
    cases hFound : t.rowOf? (r.cells .path) with
    | none => exact absurd rfl (rowOf?_eq_none_iff.mp hFound r hr)
    | some s =>
      obtain ⟨hs, hPath⟩ := mem_of_rowOf?_eq_some hFound
      rw [h.eq_of_path_eq hs hr hPath]

theorem Sound.rowOf?_of_mem (h : t.Sound) {r : Row} (hr : r ∈ t.rows) :
    t.rowOf? (r.cells .path) = some r :=
  h.rowOf?_eq_some_iff.mpr ⟨hr, rfl⟩

theorem Sound.nodup_cells (h : t.Sound) : (t.rows.map (·.cells)).Nodup := by
  refine List.Nodup.of_map (fun cells : Column → Cell => cells .path) ?_
  rw [List.map_map]
  exact h.distinct

theorem Sound.mem_cells_iff (h : t.Sound) {cells : Column → Cell} :
    cells ∈ t.rows.map (·.cells) ↔ (t.rowOf? (cells .path)).map (·.cells) = some cells := by
  rw [List.mem_map, Option.map_eq_some_iff]
  refine exists_congr fun r => ?_
  rw [h.rowOf?_eq_some_iff]
  constructor
  · rintro ⟨hr, rfl⟩
    exact ⟨⟨hr, rfl⟩, rfl⟩
  · rintro ⟨⟨hr, -⟩, hCells⟩
    exact ⟨hr, hCells⟩

/-- Tables that have the same cells at every path have the same rows but for numbers and dates. -/
theorem Sound.perm_cells {later : Table} (h : t.Sound) (hLater : later.Sound)
    (hCells : ∀ c, (later.rowOf? c).map (·.cells) = (t.rowOf? c).map (·.cells)) :
    (later.rows.map (·.cells)).Perm (t.rows.map (·.cells)) := by
  refine (List.perm_ext_iff_of_nodup hLater.nodup_cells h.nodup_cells).mpr fun cells => ?_
  rw [hLater.mem_cells_iff, h.mem_cells_iff, hCells]

/-! ## Lookups -/

theorem Sound.find?_path_and (h : t.Sound) (c : Cell) (p : Row → Bool) :
    (t.rows.find? fun r => p r && r.cells .path == c) = (t.rowOf? c).filter p := by
  cases hFind : t.rows.find? fun r => p r && r.cells .path == c with
  | some r =>
    have hr := List.mem_of_find?_eq_some hFind
    have hBoth := List.find?_some hFind
    rw [Bool.and_eq_true, beq_iff_eq] at hBoth
    rw [h.rowOf?_eq_some_iff.mpr ⟨hr, hBoth.2⟩, Option.filter_some_pos hBoth.1]
  | none =>
    symm
    rw [Option.filter_eq_none_iff]
    intro r hRow hp
    obtain ⟨hr, hPath⟩ := mem_of_rowOf?_eq_some hRow
    exact List.find?_eq_none.mp hFind r hr (by simp [hp, hPath])

/-- A lookup tells of the row at the path, if the row is of the volume. -/
theorem Sound.lookup_eq (h : t.Sound) (volume : String) (path : Path) :
    t.lookup volume path =
      ((t.rowOf? (.text path.text)).filter (·.hasText .volumeName volume)).map fun r =>
        ⟨r.id, r.cells .size, r.cells .dateModified⟩ := by
  rw [lookup, ← h.find?_path_and]
  rfl

/-! ## Writing a record -/

/-- The row that a record makes of the one that stood at its path. -/
def rowFor (t : Table) (cells : Column → Cell) (now : String) : Row :=
  match t.rowOf? (cells .path) with
  | some old => { old with cells }
  | none => ⟨t.counter + 1, cells, now⟩

theorem write_eq_of_some {cells : Column → Cell} {now : String} {old : Row}
    (h : t.rowOf? (cells .path) = some old) :
    t.write cells now = (⟨t.rows.map fun r => if r.id = old.id then { r with cells } else r,
      t.counter + 1⟩, old.id) := by
  simp [write, h]

theorem write_eq_of_none {cells : Column → Cell} {now : String}
    (h : t.rowOf? (cells .path) = none) :
    t.write cells now = (⟨t.rows ++ [⟨t.counter + 1, cells, now⟩], t.counter + 1⟩,
      t.counter + 1) := by
  simp [write, h]

@[simp] theorem counter_write (cells : Column → Cell) (now : String) :
    (t.write cells now).1.counter = t.counter + 1 := by
  cases h : t.rowOf? (cells .path) with
  | none => rw [write_eq_of_none h]
  | some old => rw [write_eq_of_some h]

theorem Sound.mem_write_iff (h : t.Sound) (cells : Column → Cell) (now : String) (r : Row) :
    r ∈ (t.write cells now).1.rows ↔
      r = t.rowFor cells now ∨ r ∈ t.rows ∧ r.cells .path ≠ cells .path := by
  cases hOld : t.rowOf? (cells .path) with
  | none =>
    have hNone := rowOf?_eq_none_iff.mp hOld
    rw [write_eq_of_none hOld, rowFor, hOld, List.mem_append, List.mem_singleton]
    constructor
    · rintro (hr | hr)
      · exact .inr ⟨hr, hNone r hr⟩
      · exact .inl hr
    · rintro (hr | ⟨hr, _⟩)
      · exact .inr hr
      · exact .inl hr
  | some old =>
    obtain ⟨hMem, hPath⟩ := mem_of_rowOf?_eq_some hOld
    rw [write_eq_of_some hOld, rowFor, hOld, List.mem_map]
    constructor
    · rintro ⟨s, hs, rfl⟩
      by_cases hId : s.id = old.id
      · left
        rw [if_pos hId, h.eq_of_id_eq hs hMem hId]
      · right
        rw [if_neg hId]
        refine ⟨hs, fun hEq => hId ?_⟩
        rw [h.eq_of_path_eq hs hMem (hEq.trans hPath.symm)]
    · rintro (rfl | ⟨hr, hNe⟩)
      · exact ⟨old, hMem, if_pos rfl⟩
      · refine ⟨r, hr, if_neg fun hId => hNe ?_⟩
        rw [h.eq_of_id_eq hr hMem hId, hPath]

theorem rowFor_cells (cells : Column → Cell) (now : String) :
    (t.rowFor cells now).cells = cells := by
  unfold rowFor
  split <;> rfl

theorem snd_write (cells : Column → Cell) (now : String) :
    (t.write cells now).2 = (t.rowFor cells now).id := by
  cases h : t.rowOf? (cells .path) with
  | none => rw [write_eq_of_none h, rowFor, h]
  | some old => rw [write_eq_of_some h, rowFor, h]

theorem Sound.write_new (h : t.Sound) {cells : Column → Cell}
    (hNew : t.rowOf? (cells .path) = none) (now : String) : (t.write cells now).1.Sound := by
  have hNone := rowOf?_eq_none_iff.mp hNew
  rw [write_eq_of_none hNew]
  refine ⟨?_, ?_, ?_⟩
  · rw [List.map_append, List.pairwise_append]
    refine ⟨h.increasing, by simp, ?_⟩
    intro id hId next hNext
    obtain ⟨r, hr, rfl⟩ := List.mem_map.mp hId
    have := h.counted r hr
    simp at hNext
    omega
  · intro r hr
    rcases List.mem_append.mp hr with hr | hr
    · have := h.counted r hr
      simp only
      omega
    · simp_all
  · rw [List.map_append, List.nodup_append]
    refine ⟨h.distinct, by simp, ?_⟩
    intro path hPath next hNext
    obtain ⟨r, hr, rfl⟩ := List.mem_map.mp hPath
    simp at hNext
    exact hNext ▸ hNone r hr

theorem Sound.write_old (h : t.Sound) {cells : Column → Cell} {old : Row}
    (hOld : t.rowOf? (cells .path) = some old) (now : String) : (t.write cells now).1.Sound := by
  obtain ⟨hMem, hPath⟩ := mem_of_rowOf?_eq_some hOld
  rw [write_eq_of_some hOld]
  -- The row is replaced in its place, with its own number and path.
  have hIds : (t.rows.map fun r => if r.id = old.id then { r with cells } else r).map (·.id) =
      t.rows.map (·.id) := by
    rw [List.map_map]
    refine List.map_congr_left fun r _ => ?_
    simp only [Function.comp_apply]
    split <;> rfl
  have hPaths : (t.rows.map fun r => if r.id = old.id then { r with cells } else r).map
      (fun r => r.cells .path) = t.rows.map fun r => r.cells .path := by
    rw [List.map_map]
    refine List.map_congr_left fun r hr => ?_
    simp only [Function.comp_apply]
    split
    · next hId => rw [h.eq_of_id_eq hr hMem hId, hPath]
    · rfl
  refine ⟨hIds ▸ h.increasing, ?_, hPaths ▸ h.distinct⟩
  intro r hr
  have hId : r.id ∈ t.rows.map (·.id) := hIds ▸ List.mem_map_of_mem hr
  obtain ⟨s, hs, hEq⟩ := List.mem_map.mp hId
  have := h.counted s hs
  simp only at hEq ⊢
  omega

theorem Sound.write (h : t.Sound) (cells : Column → Cell) (now : String) :
    (t.write cells now).1.Sound := by
  cases hOld : t.rowOf? (cells .path) with
  | none => exact h.write_new hOld now
  | some old => exact h.write_old hOld now

theorem Sound.rowOf?_write_same (h : t.Sound) (cells : Column → Cell) (now : String) :
    (t.write cells now).1.rowOf? (cells .path) = some (t.rowFor cells now) := by
  rw [(h.write cells now).rowOf?_eq_some_iff, h.mem_write_iff, rowFor_cells]
  exact ⟨.inl rfl, rfl⟩

theorem Sound.rowOf?_write_of_ne (h : t.Sound) (cells : Column → Cell) (now : String) {c : Cell}
    (hc : c ≠ cells .path) : (t.write cells now).1.rowOf? c = t.rowOf? c := by
  refine Option.ext fun r => ?_
  rw [(h.write cells now).rowOf?_eq_some_iff, h.rowOf?_eq_some_iff, h.mem_write_iff]
  constructor
  · rintro ⟨rfl | ⟨hr, _⟩, hPath⟩
    · exact absurd (hPath.symm.trans (by rw [rowFor_cells])) hc
    · exact ⟨hr, hPath⟩
  · rintro ⟨hr, hPath⟩
    exact ⟨.inr ⟨hr, hPath ▸ hc⟩, hPath⟩

theorem rowFor_inherits (cells : Column → Cell) (now : String) :
    (t.rowFor cells now).Inherits (t.rowOf? (cells .path)) t.counter := by
  unfold rowFor
  cases t.rowOf? (cells .path) with
  | none => exact Int.lt_succ t.counter
  | some old => exact ⟨rfl, rfl⟩

/-! ## Deleting a number -/

theorem Sound.delete (h : t.Sound) (id : Int) : (t.delete id).Sound where
  increasing := h.increasing.sublist (List.filter_sublist.map _)
  counted r hr := h.counted r (List.mem_filter.mp hr).1
  distinct := h.distinct.sublist (List.filter_sublist.map _)

theorem Sound.rowOf?_delete (h : t.Sound) (id : Int) (c : Cell) :
    (t.delete id).rowOf? c = (t.rowOf? c).filter (·.id ≠ id) := by
  refine Option.ext fun r => ?_
  rw [(h.delete id).rowOf?_eq_some_iff, Option.filter_eq_some_iff, h.rowOf?_eq_some_iff,
    Table.delete, List.mem_filter]
  exact and_right_comm

end Table

end MediaIndex.Catalog
