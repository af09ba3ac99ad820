import MediaIndex.Proofs.Exactness

/-!
# What a lost batch costs

A batch that the catalog could not apply leaves the rows it was to write as they were, and the sweep
takes them for rows of files that are gone. So an entry that is there loses its row exactly if the
batch with its record was lost and the batch that deletes its row was not.
-/

namespace MediaIndex.Reconcile

open Catalog (Operation Record Row Store Table)
open Disk (Attributes Tree)

variable {t : Tree} {p : Pass} {before middle after : Table} {walk sweep : List Call}

variable (h : Ran t p before middle after walk sweep) {a : Attributes}

include h

/-- The row of a visited entry stays exactly if it was confirmed or its deletion was not applied. -/
theorem Ran.row_survives_iff (ha : a ∈ p.visited t) {row : Row}
    (hRow : before.rowOf? (.text a.path.text) = some row) :
    (∃ r, after.rowOf? (.text a.path.text) = some r ∧ r.id = row.id ∧ r.added = row.added) ↔
      Confirmed t p.volume before walk a ∨ Operation.delete row.id ∉ applied sweep := by
  rw [← mem_erased_iff]
  obtain ⟨r, hMiddle, hId, hAdded⟩ := h.writes.row_of_row hRow
  constructor
  · rintro ⟨other, hOther, hOtherId, -⟩
    right
    rw [← hOtherId]
    exact (h.rowOf?_after_iff.mp hOther).2
  · rintro (hConfirmed | hDelete)
    · exact ⟨r, h.after_of_confirmed ha hConfirmed hMiddle, hId, hAdded⟩
    · exact ⟨r, h.rowOf?_after_iff.mpr ⟨hMiddle, hId ▸ hDelete⟩, hId, hAdded⟩

theorem Ran.confirmed_iff_not_lost (hStanding : standing t p.volume before a ≠ .passed) :
    Confirmed t p.volume before walk a ↔ ¬ ∃ record, standing t p.volume before a = .taken record ∧
      Operation.upsert record ∉ applied (walk ++ sweep) := by
  cases hCase : standing t p.volume before a with
  | kept entry => simp [Confirmed, hCase]
  | passed => exact absurd hCase hStanding
  | taken record => simp [Confirmed, hCase, ← h.upsert_mem_applied_iff, -applied_append]

omit h

/-- A pass that returns takes the row of a visited entry that is kept or taken in exactly if the
batch with its record was lost and the one that deletes the row was not, whichever batches fail. It
submits the deletion of a row exactly if no entry at its path was kept or had its record written. -/
theorem row_lost_iff {path : Path} {told : Bool} {size : Int} {s : Store}
    (hTree : t.WellFormed) (hPath : path.IsProper) (hBefore : before.Sound)
    (hStart : Pass.start t path told size = .ok p) (hs : s.contents = .table before)
    (hReturns : ((p.run t).run s).result.failure = none) :
    ∃ after, ((p.run t).run s).store.contents = .table after ∧
      (∀ a ∈ p.visited t, standing t p.volume before a ≠ .passed →
        ∀ row, before.rowOf? (.text a.path.text) = some row →
          ((¬ ∃ r, after.rowOf? (.text a.path.text) = some r ∧ r.id = row.id ∧
              r.added = row.added) ↔
            (∃ record, standing t p.volume before a = .taken record ∧
              Operation.upsert record ∉ applied ((p.run t).calls s)) ∧
            Operation.delete row.id ∈ applied ((p.run t).calls s))) ∧
      ∀ id, Operation.delete id ∈ operations ((p.run t).calls s) ↔
        ∃ row ∈ before.rows, row.id = id ∧ Table.IsOf p.volume p.root row ∧
          ∀ a ∈ p.visited t, row.cells .path = .text a.path.text →
            standing t p.volume before a = .passed ∨
              ∃ record, standing t p.volume before a = .taken record ∧
                Operation.upsert record ∉ applied ((p.run t).calls s) := by
  obtain ⟨after, middle, walk, sweep, half, hAfter, hCalls, h⟩ :=
    complete_of_run hTree hPath hBefore hStart hs hReturns
  have hRoot : p.root.IsAbsolute := (Pass.start_eq_ok hStart).2 ▸ hPath.absolute
  rw [hCalls]
  refine ⟨after, hAfter, ?_, ?_⟩
  · intro a ha hStanding row hRow
    rw [h.row_survives_iff ha hRow, h.confirmed_iff_not_lost hStanding,
      h.delete_mem_applied_iff, mem_erased_iff, ← Classical.not_and_iff_not_or_not,
      Classical.not_not]
  · intro id
    rw [h.delete_mem_operations_iff, h.delete_mem_sweep_iff hBefore hRoot]
    refine exists_congr fun row => and_congr_right fun hRow => and_congr_right fun hId =>
      and_congr_right fun hIsOf => ?_
    rw [not_exists]
    refine forall_congr' fun a => ?_
    rw [not_and, not_and]
    refine forall_congr' fun ha => forall_congr' fun hText => ?_
    by_cases hStanding : standing t p.volume before a = .passed
    · simp [Confirmed, hStanding]
    · rw [h.confirmed_iff_not_lost hStanding, Classical.not_not]
      simp [hStanding]

def outdatedStore : Store := { Store.ofTable outdatedTable 0 with failingBatches := [0] }

theorem row_lost_iff_playlist :
    ∃ after, ((playlistPass.run playlistTree).run outdatedStore).store.contents = .table after ∧
      (∀ a ∈ playlistPass.visited playlistTree,
        standing playlistTree "/" outdatedTable a ≠ .passed →
        ∀ row, outdatedTable.rowOf? (.text a.path.text) = some row →
          ((¬ ∃ r, after.rowOf? (.text a.path.text) = some r ∧ r.id = row.id ∧
              r.added = row.added) ↔
            (∃ record, standing playlistTree "/" outdatedTable a = .taken record ∧
              Operation.upsert record ∉ applied ((playlistPass.run playlistTree).calls
                outdatedStore)) ∧
            Operation.delete row.id ∈ applied ((playlistPass.run playlistTree).calls
              outdatedStore))) ∧
      ∀ id, Operation.delete id ∈ operations ((playlistPass.run playlistTree).calls
          outdatedStore) ↔
        ∃ row ∈ outdatedTable.rows, row.id = id ∧ Table.IsOf "/" ⟨.root, ["m"]⟩ row ∧
          ∀ a ∈ playlistPass.visited playlistTree, row.cells .path = .text a.path.text →
            standing playlistTree "/" outdatedTable a = .passed ∨
              ∃ record, standing playlistTree "/" outdatedTable a = .taken record ∧
                Operation.upsert record ∉ applied ((playlistPass.run playlistTree).calls
                  outdatedStore) := by
  have hAnswers : outdatedStore.Answers := ⟨rfl, rfl, rfl⟩
  exact row_lost_iff playlistTree_wellFormed playlist_isProper outdatedTable_sound playlist_start
    rfl (playlist_returns rfl hAnswers)

end MediaIndex.Reconcile
