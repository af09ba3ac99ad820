import MediaIndex.Proofs.WalkLedger

/-!
# Confirmed entries

An entry is confirmed if the walk has kept its row or has written its record. The rows of confirmed
entries, and no others, count as scanned; an entry that is not confirmed has the row that it had.
-/

namespace MediaIndex.Reconcile

open Catalog (Cell Record Row Table)
open Disk (Attributes Tree)

/-- The walk has kept the row of an entry, or has written its record. -/
def Confirmed (t : Tree) (volume : String) (before : Table) (walk : List Call) (a : Attributes) :
    Prop :=
  (∃ entry, standing t volume before a = .kept entry) ∨
    ∃ record ∈ written walk, standing t volume before a = .taken record

variable {t : Tree} {volume : String} {before middle : Table} {done : List Attributes}
  {walk : List Call} {half : Queue}

theorem rowOf?_of_unwritten (h : before.Writes (written walk) middle)
    (hDue : ∀ record ∈ written walk, record ∈ dueRecords t volume before done) {c : Cell}
    (hUnwritten : ∀ a ∈ done, c = .text a.path.text → ∀ record ∈ written walk,
      standing t volume before a ≠ .taken record) : middle.rowOf? c = before.rowOf? c := by
  apply h.others c
  intro record hRecord hPath
  obtain ⟨a, ha, hTaken⟩ := mem_dueRecords.mp (hDue record hRecord)
  rw [Table.pathOf, pathOf_of_taken hTaken] at hPath
  exact hUnwritten a ha hPath.symm record hRecord hTaken

/-- No record is written at the path of a kept entry. -/
theorem row_of_kept_of_writes (h : before.Writes (written walk) middle)
    (hDue : ∀ record ∈ written walk, record ∈ dueRecords t volume before done)
    (hDistinct : (done.map (·.path.text)).Nodup) (hBefore : before.Sound) {a : Attributes}
    (ha : a ∈ done) {entry : Catalog.Entry} (hKept : standing t volume before a = .kept entry) :
    ∃ row, before.rowOf? (.text a.path.text) = some row ∧
      middle.rowOf? (.text a.path.text) = some row ∧
      row.cells .volumeName = .text volume ∧ row.id = entry.id := by
  obtain ⟨row, hRow, hVolume, hId⟩ := Reconcile.row_of_kept hBefore hKept
  refine ⟨row, hRow, ?_, hVolume, hId⟩
  rw [rowOf?_of_unwritten h hDue, hRow]
  intro b hb hText record _ hTaken
  rw [List.inj_on_of_nodup_map hDistinct hb ha (Cell.text.inj hText).symm, hKept] at hTaken
  cases hTaken

theorem row_of_written (h : before.Writes (written walk) middle) {a : Attributes}
    {record : Record} (hTaken : standing t volume before a = .taken record)
    (hWritten : record ∈ written walk) :
    ∃ row, middle.rowOf? (.text a.path.text) = some row ∧ row.cells = record.cells ∧
      row.Inherits (before.rowOf? (.text a.path.text)) before.counter := by
  have hRow := h.written record hWritten
  rw [Table.pathOf, pathOf_of_taken hTaken] at hRow
  exact hRow

section

variable (h : Walked t volume before done walk half middle)

include h

theorem Walked.row_of_kept (hBefore : before.Sound) {a : Attributes} (ha : a ∈ done)
    {entry : Catalog.Entry} (hKept : standing t volume before a = .kept entry) :
    ∃ row, before.rowOf? (.text a.path.text) = some row ∧
      middle.rowOf? (.text a.path.text) = some row ∧
      row.cells .volumeName = .text volume ∧ row.id = entry.id :=
  row_of_kept_of_writes h.writes (fun _ => h.mem_dueRecords) h.distinct hBefore ha hKept

theorem Walked.mem_scanned_iff (hBefore : before.Sound) {r : Row} (hr : r ∈ middle.rows) :
    r.id ∈ half.scanned ↔ ∃ a ∈ done, r.cells .path = .text a.path.text ∧
      Confirmed t volume before walk a := by
  have hMiddle := h.writes.sound
  rw [h.scanned]
  constructor
  · rintro (⟨a, ha, hKept⟩ | ⟨record, hRecord, hNumber⟩)
    · obtain ⟨entry, hEntry, hId⟩ := kept?_eq_some_iff.mp hKept
      obtain ⟨row, -, hRow, -, hRowId⟩ := h.row_of_kept hBefore ha hEntry
      obtain ⟨hMem, hPath⟩ := Table.mem_of_rowOf?_eq_some hRow
      obtain rfl := hMiddle.eq_of_id_eq hMem hr (hRowId.trans hId)
      exact ⟨a, ha, hPath, .inl ⟨entry, hEntry⟩⟩
    · obtain ⟨a, ha, hTaken⟩ := Reconcile.mem_dueRecords.mp (h.mem_dueRecords hRecord)
      obtain ⟨row, hRow, hId⟩ := Option.map_eq_some_iff.mp hNumber
      obtain ⟨hMem, hPath⟩ := Table.mem_of_rowOf?_eq_some hRow
      obtain rfl := hMiddle.eq_of_id_eq hMem hr hId
      exact ⟨a, ha, hPath.trans (pathOf_of_taken hTaken), .inr ⟨record, hRecord, hTaken⟩⟩
  · rintro ⟨a, ha, hPath, ⟨entry, hKept⟩ | ⟨record, hRecord, hTaken⟩⟩
    · obtain ⟨row, -, hRow, -, hRowId⟩ := h.row_of_kept hBefore ha hKept
      have hSame := hMiddle.rowOf?_of_mem hr
      rw [hPath, hRow, Option.some.injEq] at hSame
      exact .inl ⟨a, ha, kept?_eq_some_iff.mpr ⟨entry, hKept, by rw [← hRowId, hSame]⟩⟩
    · refine .inr ⟨record, hRecord, ?_⟩
      have hRow := hMiddle.rowOf?_of_mem hr
      rw [hPath, ← pathOf_of_taken hTaken] at hRow
      rw [Table.numberOf?, Table.pathOf, hRow]
      rfl

/-- A number that does not count as scanned is deleted only if the row that has it is one of the
volume, at or below the root, and of no confirmed entry. -/
theorem Walked.stray_iff (hBefore : before.Sound) {root : Path} (hRoot : root.IsAbsolute) {r : Row}
    (hr : r ∈ middle.rows) :
    r.id ∈ (middle.idsUnder volume root).filter (· ∉ half.scanned) ↔ Table.IsOf volume root r ∧
      ¬ ∃ a ∈ done, r.cells .path = .text a.path.text ∧ Confirmed t volume before walk a := by
  rw [← h.mem_scanned_iff hBefore hr, List.mem_filter, decide_eq_true_eq,
    Table.mem_idsUnder hRoot.zero_notMem_text]
  refine and_congr ?_ Iff.rfl
  constructor
  · rintro ⟨other, hOther, hIsOf, hId⟩
    exact h.writes.sound.eq_of_id_eq hOther hr hId ▸ hIsOf
  · intro hIsOf
    exact ⟨r, hr, hIsOf, rfl⟩

end

end MediaIndex.Reconcile
