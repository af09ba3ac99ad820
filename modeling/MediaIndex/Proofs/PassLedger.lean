import MediaIndex.Proofs.Confirmation
import MediaIndex.Proofs.SweepLedger

/-!
# The ledger of a pass

Wherever a pass stops, what it submitted in its walk are records due to entries that it visits, and
what it submitted in its sweep are deletions of rows of its volume, at or below its root and of no
confirmed entry. The table has what the applied batches wrote and lacks what they deleted; nothing
else has changed.
-/

namespace MediaIndex.Reconcile

open Catalog (Cell Operation Record Row Store Table)
open Disk (Attributes Tree)

/-- The entries that a pass visits, in order; none if its location is hidden. -/
def Pass.visited (t : Tree) (p : Pass) : List Attributes :=
  match p.isHidden t with
  | .ok false => Walk.visits t p.root
  | _ => []

variable {t : Tree} {p : Pass} {before middle after : Table} {done : List Attributes}
  {walk sweep calls : List Call} {half full : Queue} {stray : List Int}

structure Pass.IsNew (p : Pass) (size : Int) : Prop where
  phase : p.phase = .notStarted
  queue : p.queue = .ofSize size
  tally : p.tally = .zero

theorem Pass.start_eq_ok {path : Path} {told : Bool} {size : Int}
    (h : Pass.start t path told size = .ok p) : p.IsNew size ∧ p.root = path.absolute := by
  obtain ⟨volume, -, hPass⟩ := bind_eq_ok_iff.mp h
  rw [← Except.ok.inj hPass]
  exact ⟨⟨rfl, rfl, rfl⟩, rfl⟩

theorem Pass.mem_visits_of_mem_visited {a : Attributes} (h : a ∈ p.visited t) :
    a ∈ Walk.visits t p.root := by
  unfold visited at h
  split at h
  · exact h
  · cases h

theorem Pass.nodup_visited_texts (hTree : t.WellFormed) (hRoot : p.root.IsAbsolute) :
    ((p.visited t).map (·.path.text)).Nodup := by
  unfold visited
  split
  · exact Walk.nodup_visits_texts hTree hRoot
  · exact .nil

/-- What a pass did, over a table before it, one after the walk, and one in the end. -/
structure Ran (t : Tree) (p : Pass) (before middle after : Table) (walk sweep : List Call) :
    Prop where
  distinct : ((p.visited t).map (·.path.text)).Nodup
  upserts : ∀ op ∈ operations walk,
    ∃ record ∈ dueRecords t p.volume before (p.visited t), op = .upsert record
  writes : before.Writes (written walk) middle
  storable : ∀ record ∈ written walk, Media.IsStorable record
  deletes : ∀ op ∈ operations sweep, ∃ r ∈ middle.rows, op = .delete r.id ∧
    Table.IsOf p.volume p.root r ∧ ¬ ∃ a ∈ p.visited t, r.cells .path = .text a.path.text ∧
      Confirmed t p.volume before walk a
  erases : middle.Erases (erased sweep) after

theorem dueRecords_subset {entries : List Attributes} (h : done ⊆ entries) {record : Record}
    (hRecord : record ∈ dueRecords t p.volume before done) :
    record ∈ dueRecords t p.volume before entries := by
  obtain ⟨a, ha, hTaken⟩ := mem_dueRecords.mp hRecord
  exact mem_dueRecords.mpr ⟨a, h ha, hTaken⟩

theorem Walked.upserts (h : Walked t p.volume before done walk half middle)
    (hDone : done <+: p.visited t) : ∀ op ∈ operations walk,
      ∃ record ∈ dueRecords t p.volume before (p.visited t), op = .upsert record := by
  intro op hOp
  have hMem : op ∈ operations walk ++ half.pending := List.mem_append_left _ hOp
  rw [h.queued] at hMem
  obtain ⟨record, hRecord, rfl⟩ := List.mem_map.mp hMem
  exact ⟨record, dueRecords_subset hDone.subset hRecord, rfl⟩

theorem Walked.ran (h : Walked t p.volume before done walk half middle)
    (hDistinct : ((p.visited t).map (·.path.text)).Nodup) (hDone : done <+: p.visited t) :
    Ran t p before middle middle walk [] where
  distinct := hDistinct
  upserts := h.upserts hDone
  writes := h.writes
  storable := h.storable
  deletes := by simp
  erases := h.writes.sound.erases_nil

theorem Swept.ran (h : Swept middle stray half sweep full after) (hBefore : before.Sound)
    (hRoot : p.root.IsAbsolute) (hWalked : Walked t p.volume before (p.visited t) walk half middle)
    (hStray : stray <+: (middle.idsUnder p.volume p.root).filter (· ∉ half.scanned)) :
    Ran t p before middle after walk sweep where
  distinct := hWalked.distinct
  upserts := hWalked.upserts (List.prefix_refl _)
  writes := hWalked.writes
  storable := hWalked.storable
  deletes := by
    intro op hOp
    have hMem : op ∈ operations sweep ++ full.pending := List.mem_append_left _ hOp
    rw [h.queued] at hMem
    obtain ⟨id, hId, rfl⟩ := List.mem_map.mp hMem
    have hFiltered := hStray.subset hId
    obtain ⟨r, hr, -, rfl⟩ :=
      (Table.mem_idsUnder hRoot.zero_notMem_text).mp (List.mem_filter.mp hFiltered).1
    exact ⟨r, hr, rfl, (hWalked.stray_iff hBefore hRoot hr).mp hFiltered⟩
  erases := h.erases

/-! ## What can be read off the ledger -/

section

variable (h : Ran t p before middle after walk sweep)

include h

theorem Ran.eq_of_text_eq {a b : Attributes} (ha : a ∈ p.visited t) (hb : b ∈ p.visited t)
    (hText : a.path.text = b.path.text) : a = b :=
  List.inj_on_of_nodup_map h.distinct ha hb hText

theorem Ran.mem_dueRecords {record : Record} (hRecord : record ∈ written walk) :
    record ∈ dueRecords t p.volume before (p.visited t) := by
  obtain ⟨other, hOther, hEq⟩ :=
    h.upserts _ ((applied_sublist walk).subset (mem_written_iff.mp hRecord))
  exact Operation.upsert.inj hEq ▸ hOther

theorem Ran.middle_of_kept (hBefore : before.Sound) {a : Attributes} (ha : a ∈ p.visited t)
    {entry : Catalog.Entry} (hKept : standing t p.volume before a = .kept entry) :
    ∃ row, before.rowOf? (.text a.path.text) = some row ∧
      middle.rowOf? (.text a.path.text) = some row ∧
      row.cells .volumeName = .text p.volume ∧ row.id = entry.id :=
  row_of_kept_of_writes h.writes (fun _ => h.mem_dueRecords) h.distinct hBefore ha hKept

theorem Ran.upsert_mem_applied_iff {record : Record} :
    Operation.upsert record ∈ applied (walk ++ sweep) ↔ record ∈ written walk := by
  rw [applied_append, List.mem_append, mem_written_iff]
  constructor
  · rintro (hWalk | hSweep)
    · exact hWalk
    · obtain ⟨r, -, hDelete, -⟩ := h.deletes _ ((applied_sublist sweep).subset hSweep)
      cases hDelete
  · exact .inl

theorem Ran.delete_mem_applied_iff {id : Int} :
    Operation.delete id ∈ applied (walk ++ sweep) ↔ id ∈ erased sweep := by
  rw [applied_append, List.mem_append, mem_erased_iff]
  constructor
  · rintro (hWalk | hSweep)
    · obtain ⟨record, -, hUpsert⟩ := h.upserts _ ((applied_sublist walk).subset hWalk)
      cases hUpsert
    · exact hSweep
  · exact .inr

theorem Ran.delete_mem_operations_iff {id : Int} :
    Operation.delete id ∈ operations (walk ++ sweep) ↔ Operation.delete id ∈ operations sweep := by
  rw [operations_append, List.mem_append]
  constructor
  · rintro (hWalk | hSweep)
    · obtain ⟨record, -, hUpsert⟩ := h.upserts _ hWalk
      cases hUpsert
    · exact hSweep
  · exact .inr

theorem Ran.rowOf?_after_iff {c : Cell} {r : Row} : after.rowOf? c = some r ↔
    middle.rowOf? c = some r ∧ r.id ∉ erased sweep := by
  rw [h.erases.rows, Option.filter_eq_some_iff, decide_eq_true_eq]

theorem Ran.not_mem_erased {a : Attributes} (ha : a ∈ p.visited t)
    (hConfirmed : Confirmed t p.volume before walk a) {row : Row}
    (hRow : middle.rowOf? (.text a.path.text) = some row) : row.id ∉ erased sweep := by
  intro hErased
  obtain ⟨r, hr, hDelete, -, hNone⟩ :=
    h.deletes _ ((applied_sublist sweep).subset (mem_erased_iff.mp hErased))
  obtain ⟨hMem, hPath⟩ := Table.mem_of_rowOf?_eq_some hRow
  obtain rfl := h.writes.sound.eq_of_id_eq hMem hr (Operation.delete.inj hDelete)
  exact hNone ⟨a, ha, hPath, hConfirmed⟩

theorem Ran.after_of_confirmed {a : Attributes} (ha : a ∈ p.visited t)
    (hConfirmed : Confirmed t p.volume before walk a) {row : Row}
    (hRow : middle.rowOf? (.text a.path.text) = some row) :
    after.rowOf? (.text a.path.text) = some row :=
  h.rowOf?_after_iff.mpr ⟨hRow, h.not_mem_erased ha hConfirmed hRow⟩

/-- A path of no confirmed entry has the row after the walk that it had. -/
theorem Ran.rowOf?_of_unconfirmed {c : Cell} (hNone : ¬ ∃ a ∈ p.visited t,
      c = .text a.path.text ∧ Confirmed t p.volume before walk a) :
    middle.rowOf? c = before.rowOf? c := by
  refine rowOf?_of_unwritten h.writes (fun record => h.mem_dueRecords) ?_
  intro a ha hText record hRecord hTaken
  exact hNone ⟨a, ha, hText, .inr ⟨record, hRecord, hTaken⟩⟩

/-- A row is one that was there before, or it was written for a visited entry. -/
theorem Ran.mem_before_or_taken {r : Row} (hr : r ∈ after.rows) :
    r ∈ before.rows ∨ ∃ a ∈ p.visited t, ∃ record, standing t p.volume before a = .taken record ∧
      Media.IsStorable record ∧ r.cells = record.cells := by
  obtain ⟨hMiddle, -⟩ := h.rowOf?_after_iff.mp (h.erases.sound.rowOf?_of_mem hr)
  refine (h.writes.mem_cases (Table.mem_of_rowOf?_eq_some hMiddle).1).imp_right ?_
  rintro ⟨record, hRecord, hCells, -⟩
  obtain ⟨a, ha, hTaken⟩ := Reconcile.mem_dueRecords.mp (h.mem_dueRecords hRecord)
  exact ⟨a, ha, record, hTaken, h.storable record hRecord, hCells⟩

theorem Ran.mem_before_of_unconfirmed {row : Row} (hRow : row ∈ middle.rows)
    (hNone : ¬ ∃ a ∈ p.visited t, row.cells .path = .text a.path.text ∧
      Confirmed t p.volume before walk a) : row ∈ before.rows := by
  have hFound := h.writes.sound.rowOf?_of_mem hRow
  rw [h.rowOf?_of_unconfirmed hNone] at hFound
  exact (Table.mem_of_rowOf?_eq_some hFound).1

theorem Ran.mem_middle_of_unconfirmed (hBefore : before.Sound) {row : Row}
    (hRow : row ∈ before.rows) (hNone : ¬ ∃ a ∈ p.visited t,
      row.cells .path = .text a.path.text ∧ Confirmed t p.volume before walk a) :
    row ∈ middle.rows := by
  have hFound := hBefore.rowOf?_of_mem hRow
  rw [← h.rowOf?_of_unconfirmed hNone] at hFound
  exact (Table.mem_of_rowOf?_eq_some hFound).1

end

end MediaIndex.Reconcile
