import MediaIndex.Proofs.Exactness
import MediaIndex.Proofs.PassRequests
import MediaIndex.Proofs.WalkInside
import MediaIndex.Reconcile.Scan

/-!
# Scans of a file

The scan of a path that is no directory visits at most the one entry there, so at most one record is
written. The scan tells the number of the row that was written, which the sweep leaves alone, or
nothing; a row that stands there after a scan that tells nothing was kept by the walk, or the batch
that deletes it was lost.
-/

namespace MediaIndex.Reconcile

open Catalog (Cell Operation Record Row Store Table)
open Disk (Attributes Tree)

variable {t : Tree} {p : Pass} {path : Path} {told : Bool} {s : Store} {found : Option Int}
  {before middle after : Table} {walk sweep : List Call} {half full : Queue}

/-! ## A scan is a pass -/

theorem Pass.run_of_complete (h : ((p.complete t).run s).result.failure = none) :
    ((p.run t).run s).result.failure = none ∧
      ((p.complete t).run s).result.pass.queue = ((p.run t).run s).result.pass.queue ∧
      ((p.complete t).run s).store = ((p.run t).run s).store ∧
      (p.complete t).calls s = (p.run t).calls s := by
  rw [complete, Dialogue.run_andThen] at h ⊢
  rw [Dialogue.calls_andThen]
  cases hFailure : ((p.run t).run s).result.failure with
  | some failure => simp [hFailure, Dialogue.run] at h
  | none =>
    simp only [hFailure, close, Dialogue.run, Dialogue.calls] at h ⊢
    split at h
    · next hEmpty => simp [hEmpty]
    · cases h

/-- A scan that returns is the run of a pass that returns, and it tells the first number that the
queue has collected. -/
theorem run_of_scanFile (h : ((scanFile t told path).run s).result = .ok found) :
    ∃ p, Pass.start t path told Queue.usualSize = .ok p ∧
      ((p.run t).run s).result.failure = none ∧
      ((p.run t).run s).result.pass.queue.first = found ∧
      ((scanFile t told path).run s).store = ((p.run t).run s).store ∧
      (scanFile t told path).calls s = (p.run t).calls s := by
  rw [scanFile, Dialogue.run, Dialogue.Run.after, Dialogue.run_andThen, scan] at h ⊢
  rw [Dialogue.calls, Dialogue.calls_andThen]
  cases hStart : Pass.start t path told Queue.usualSize with
  | error fault => simp [hStart, Dialogue.run, Except.map] at h
  | ok p =>
    refine ⟨p, rfl, ?_⟩
    simp only [hStart, Dialogue.run_andThen, Dialogue.calls_andThen] at h ⊢
    cases hFailure : ((p.complete t).run s).result.failure with
    | some failure => simp [hFailure, Dialogue.run, Except.map] at h
    | none =>
      obtain ⟨hReturns, hQueue, hStore, hCalls⟩ := Pass.run_of_complete hFailure
      simp only [hFailure, Dialogue.run, Except.map, hQueue, Except.ok.injEq] at h
      simp [Dialogue.run, Dialogue.calls, hReturns, h, hStore, hCalls]

/-! ## Passes over one file -/

/-- A pass over a path that is no directory visits nothing but the entry there. -/
theorem Pass.attributes_of_mem_visited (hFile : ∀ a, t.attributes p.root = .ok a →
    a.isDirectory = false) {a : Attributes} (ha : a ∈ p.visited t) :
    t.attributes p.root = .ok a := by
  obtain ⟨b, hRoot, hb⟩ := Walk.attributes_of_mem_visits (mem_visits_of_mem_visited ha)
  rw [Walk.below_of_file (hFile b hRoot), List.mem_singleton] at hb
  rw [hb, hRoot]

/-- Where one entry is all that was visited, and it was taken in, no row but its own counts as
scanned. -/
theorem Walked.eq_id_of_scanned {volume : String} {done : List Attributes}
    (h : Walked t volume before done walk half middle) {a : Attributes} (hOnly : ∀ b ∈ done, b = a)
    {record : Record} (hTaken : standing t volume before a = .taken record) {r : Row}
    (hRow : middle.rowOf? (.text a.path.text) = some r) {id : Int} (hScanned : id ∈ half.scanned) :
    id = r.id := by
  rcases (h.scanned id).mp hScanned with ⟨b, hb, hKept⟩ | ⟨other, hOther, hNumber⟩
  · rw [hOnly b hb, hTaken] at hKept
    cases hKept
  · obtain ⟨b, hb, hOtherTaken⟩ := Reconcile.mem_dueRecords.mp (h.mem_dueRecords hOther)
    rw [hOnly b hb] at hOtherTaken
    rw [Table.numberOf?, Table.pathOf, pathOf_of_taken hOtherTaken, hRow] at hNumber
    exact (Option.some.inj hNumber).symm

/-- A lost batch is one that the catalog could not apply. -/
theorem Call.isLost_iff {call : Call} : call.isLost = true ↔
    ∃ ops size fault, call = .submit ops (.error (.batch size fault)) := by
  cases call with
  | lookup volume path reply => simp [isLost]
  | idsUnder volume root reply => simp [isLost]
  | submit ops reply =>
    cases reply with
    | ok ids => simp [isLost]
    | error failure => cases failure <;> simp [isLost]

section

variable (h : Complete t p before middle after walk sweep half full)

include h

/-- The number of a row that a pass deletes in vain is in a batch that was lost. -/
theorem Complete.lost_of_delete {r : Row} (hr : r ∈ after.rows)
    (hDelete : Operation.delete r.id ∈ operations sweep) :
    ∃ ops size fault, Call.submit ops (.error (.batch size fault)) ∈ walk ++ sweep ∧
      Operation.delete r.id ∈ ops := by
  obtain ⟨call, hCall, hOp⟩ := List.mem_flatMap.mp hDelete
  have hMade : call ∈ walk ++ sweep := List.mem_append_right walk hCall
  have hBatch : call.isBatch = true := by
    cases call with
    | submit ops reply => rfl
    | _ => cases hOp
  rcases h.settled call hMade hBatch with hApplied | hLost
  · have hErased : r.id ∈ erased sweep :=
      mem_erased_iff.mpr (mem_applied.mpr ⟨call, hCall, hApplied, hOp⟩)
    exact absurd hErased (h.rowOf?_after_iff.mp (h.erases.sound.rowOf?_of_mem hr)).2
  · obtain ⟨ops, size, fault, rfl⟩ := Call.isLost_iff.mp hLost
    exact ⟨ops, size, fault, hMade, hOp⟩

/-- A pass that writes nothing adds no row and changes none. -/
theorem Complete.mem_before_of_unwritten (hNone : written walk = []) {r : Row}
    (hr : r ∈ after.rows) : r ∈ before.rows := by
  obtain ⟨hMiddle, -⟩ := h.rowOf?_after_iff.mp (h.erases.sound.rowOf?_of_mem hr)
  rw [h.writes.others _ (by simp [hNone])] at hMiddle
  exact (Table.mem_of_rowOf?_eq_some hMiddle).1

/-- A row at the root is left by a pass that writes nothing only if it was kept or the batch that
deletes it was lost. -/
theorem Complete.kept_or_lost (hBefore : before.Sound) (hRoot : p.root.IsAbsolute)
    (hNone : written walk = []) {r : Row} (hr : r ∈ after.rows)
    (hText : r.cells .path = .text p.root.text) (hVolume : r.cells .volumeName = .text p.volume) :
    (∃ a ∈ p.visited t, a.path.text = p.root.text ∧ ∃ entry,
        standing t p.volume before a = .kept entry ∧ entry.id = r.id) ∨
      ∃ ops size fault, Call.submit ops (.error (.batch size fault)) ∈ walk ++ sweep ∧
        Operation.delete r.id ∈ ops := by
  obtain ⟨hMiddle, -⟩ := h.rowOf?_after_iff.mp (h.erases.sound.rowOf?_of_mem hr)
  have hIsOf : Table.IsOf p.volume p.root r := ⟨hVolume, _, hText, .inl rfl⟩
  by_cases hConfirmed : ∃ a ∈ p.visited t, r.cells .path = .text a.path.text ∧
      Confirmed t p.volume before walk a
  · left
    obtain ⟨a, ha, hPath, ⟨entry, hKept⟩ | ⟨record, hRecord, -⟩⟩ := hConfirmed
    · obtain ⟨row, -, hRow, -, hId⟩ := h.middle_of_kept hBefore ha hKept
      rw [← hPath, hMiddle, Option.some.injEq] at hRow
      exact ⟨a, ha, Cell.text.inj (hPath.symm.trans hText), entry, hKept, hRow ▸ hId.symm⟩
    · rw [hNone] at hRecord
      cases hRecord
  · right
    exact h.lost_of_delete hr ((h.mem_operations_sweep_iff hBefore hRoot
      (Table.mem_of_rowOf?_eq_some hMiddle).1).mpr ⟨hIsOf, hConfirmed⟩)

theorem Complete.written_append_sweep : written (walk ++ sweep) = written walk := by
  rw [written_append, List.append_right_eq_self, List.eq_nil_iff_forall_not_mem]
  intro record hRecord
  obtain ⟨r, -, hDelete, -⟩ :=
    h.deletes _ ((applied_sublist sweep).subset (mem_written_iff.mp hRecord))
  cases hDelete

/-- The row of a record that a pass wrote is there in the end, and the pass does not try to delete
it. -/
theorem Complete.written_row_stays (hBefore : before.Sound) (hRoot : p.root.IsAbsolute)
    {record : Record} (hRecord : record ∈ written walk) :
    ∃ a ∈ p.visited t, standing t p.volume before a = .taken record ∧
      ∃ r, middle.rowOf? (.text a.path.text) = some r ∧
        after.rowOf? (.text a.path.text) = some r ∧ r.cells = record.cells ∧
        Operation.delete r.id ∉ operations (walk ++ sweep) := by
  obtain ⟨a, ha, hTaken⟩ := mem_dueRecords.mp (h.mem_dueRecords hRecord)
  have hConfirmed : Confirmed t p.volume before walk a := .inr ⟨record, hRecord, hTaken⟩
  obtain ⟨r, hMiddle, hCells, -⟩ := Reconcile.row_of_written h.writes hTaken hRecord
  obtain ⟨hr, hPath⟩ := Table.mem_of_rowOf?_eq_some hMiddle
  refine ⟨a, ha, hTaken, r, hMiddle, h.after_of_confirmed ha hConfirmed hMiddle, hCells, ?_⟩
  rw [h.delete_mem_operations_iff, h.mem_operations_sweep_iff hBefore hRoot hr]
  rintro ⟨-, hNone⟩
  exact hNone ⟨a, ha, hPath, hConfirmed⟩

/-- A pass over a path that is no directory has given a scanned number to the row that it wrote
there, if it wrote one at all. -/
theorem Complete.fresh_row_of_scanned (hBefore : before.Sound) (hRoot : p.root.IsAbsolute)
    (hFile : ∀ a, t.attributes p.root = .ok a → a.isDirectory = false)
    (hSome : written walk ≠ []) {id : Int} (hScanned : id ∈ full.scanned) :
    ∃ a record r, t.attributes p.root = .ok a ∧ Media.recordOf? t a p.volume = some record ∧
      after.rowOf? (.text p.root.text) = some r ∧ r.id = id ∧ r.cells = record.cells ∧
      r.cells .size = .integer a.size ∧ r.cells .dateModified = .integer a.modifiedSecond ∧
      Operation.delete id ∉ operations (walk ++ sweep) := by
  obtain ⟨record, hRecord⟩ := List.exists_mem_of_ne_nil _ hSome
  obtain ⟨a, ha, hTaken, r, hMiddle, hRow, hCells, hKept⟩ :=
    h.written_row_stays hBefore hRoot hRecord
  have hStorable := h.storable record hRecord
  have hHere := Pass.attributes_of_mem_visited hFile ha
  have hOnly : ∀ b ∈ p.visited t, b = a := fun b hb =>
    Except.ok.inj ((Pass.attributes_of_mem_visited hFile hb).symm.trans hHere)
  obtain rfl := h.walked.eq_id_of_scanned hOnly hTaken hMiddle ((h.swept.scanned id).mp hScanned)
  rw [Tree.attributes_path hHere] at hRow
  refine ⟨a, record, r, hHere, recordOf?_of_taken hTaken, hRow, rfl, hCells, ?_, ?_, hKept⟩
  · rw [hCells, size_of_taken hTaken hStorable]
  · rw [hCells, dateModified_of_taken hTaken hStorable]

end

/-- The scan of a path that is no directory tells a number exactly if it wrote a record. If it tells
one, the row at the path has it, with the size and the second of modification that were read and
what a fresh reading of the file gives, and no deletion of it was submitted. If it tells none, no
row was added or changed, and one of the volume is left at the path only if it was visited and found
unchanged, or the batch with its deletion was lost. -/
theorem file_scan_tells_written (hTree : t.WellFormed) (hPath : path.IsProper)
    (hBefore : before.Sound) (hs : s.contents = .table before)
    (hFile : ∀ a, t.attributes path.absolute = .ok a → a.isDirectory = false)
    (hReturns : ((scanFile t told path).run s).result = .ok found) :
    let calls := (scanFile t told path).calls s
    let file : Cell := .text path.absolute.text
    ∃ p after, Pass.start t path told Queue.usualSize = .ok p ∧
      ((scanFile t told path).run s).store.contents = .table after ∧
      (found.isSome = true ↔ ∃ record, Operation.upsert record ∈ applied calls) ∧
      (∀ id, found = some id → ∃ a record r, t.attributes path.absolute = .ok a ∧
        Media.recordOf? t a p.volume = some record ∧ after.rowOf? file = some r ∧ r.id = id ∧
        r.cells = record.cells ∧ r.cells .size = .integer a.size ∧
        r.cells .dateModified = .integer a.modifiedSecond ∧
        Operation.delete id ∉ operations calls) ∧
      (found = none → (∀ r ∈ after.rows, r ∈ before.rows) ∧
        ∀ r ∈ after.rows, r.cells .path = file → r.cells .volumeName = .text p.volume →
          (∃ a ∈ p.visited t, t.attributes path.absolute = .ok a ∧ ∃ entry,
            freshness a (before.lookup p.volume a.path) = .unchanged entry ∧ entry.id = r.id) ∨
          ∃ ops size fault, .submit ops (.error (.batch size fault)) ∈ calls ∧
            Operation.delete r.id ∈ ops) := by
  intro calls file
  obtain ⟨p, hStart, hRuns, hFirst, hStore, hSame⟩ := run_of_scanFile hReturns
  obtain ⟨after, middle, walk, sweep, half, hAfter, hCalls, h⟩ :=
    complete_of_run hTree hPath hBefore hStart hs hRuns
  obtain ⟨hNew, hRoot⟩ := Pass.start_eq_ok hStart
  obtain ⟨requests, hServed, -⟩ := Pass.served_of_run (by decide) hNew t s
  have hAbsolute : p.root.IsAbsolute := hRoot ▸ hPath.absolute
  have hLength := length_numbers_of_run (p.run t) hs hBefore
  rw [hCalls, h.written_append_sweep] at hLength
  have hNumber : found = (numbers (walk ++ sweep)).head? := by
    rw [← hFirst, hServed.first, numbers_batches, hCalls]
  have hNothing : found = none ↔ written walk = [] := by
    rw [hNumber, List.head?_eq_none_iff, ← List.length_eq_zero_iff, hLength,
      List.length_eq_zero_iff]
  have hSameCalls : calls = walk ++ sweep := hSame.trans hCalls
  rw [← hRoot] at hFile
  simp only [hSameCalls, file, ← hRoot]
  refine ⟨p, after, hStart, hStore ▸ hAfter, ?_, ?_, ?_⟩
  · simp only [h.upsert_mem_applied_iff]
    rw [← Option.ne_none_iff_isSome, Ne, hNothing, List.eq_nil_iff_forall_not_mem, not_forall_not]
  · intro id hId
    have hTold : id ∈ numbers (walk ++ sweep) := List.mem_of_head? (hNumber.symm.trans hId)
    refine h.fresh_row_of_scanned hBefore hAbsolute hFile ?_ ?_
    · rw [Ne, ← hNothing, hId]
      exact Option.some_ne_none id
    · rw [hServed.scanned, numbers_batches, hCalls]
      exact .inr hTold
  · intro hNone
    have hUnwritten := hNothing.mp hNone
    refine ⟨fun r => h.mem_before_of_unwritten hUnwritten, fun r hr hText hVolume => ?_⟩
    refine (h.kept_or_lost hBefore hAbsolute hUnwritten hr hText hVolume).imp_left ?_
    rintro ⟨a, ha, -, entry, hKept, hId⟩
    exact ⟨a, ha, Pass.attributes_of_mem_visited hFile ha, entry,
      freshness_eq_unchanged_iff.mpr (standing_eq_kept_iff.mp hKept), hId⟩

/-! ## A playlist that is larger by now -/

def playlistPath : Path := ⟨.root, ["m", "a.m3u"]⟩

/-- One store writes what is larger by now, and one loses that and the deletion after it. -/
theorem scanFile_playlist :
    playlistTree.attributes playlistPath.absolute = .ok playlistFile ∧
      ((scanFile playlistTree false playlistPath).run (.ofTable outdatedTable 0)).result =
        .ok (some 1) ∧
      ((scanFile playlistTree false playlistPath).run
        { Store.ofTable outdatedTable 0 with failingBatches := [0, 1] }).result = .ok none := by
  have hStart : Pass.start playlistTree playlistPath false Queue.usualSize =
      .ok { playlistPass with root := playlistPath } := by cbv
  have hWalk : Walk.walk playlistTree playlistPath = [.visit playlistFile] :=
    Walk.walk_of_closed (by cbv) (by cbv)
  refine ⟨by cbv, ?_⟩
  rw [scanFile, scan, hStart]
  dsimp only
  rw [Pass.complete, Pass.run_of_walk rfl (by cbv) hWalk]
  decide +kernel

theorem file_scan_tells_written_playlist :
    let scan := scanFile playlistTree false playlistPath
    let losing := { Store.ofTable outdatedTable 0 with failingBatches := [0, 1] }
    (∃ after r, (scan.run (.ofTable outdatedTable 0)).store.contents = .table after ∧
      after.rowOf? (.text "/m/a.m3u") = some r ∧ r.id = 1 ∧ r.cells .size = .integer 0) ∧
    ∃ after, (scan.run losing).store.contents = .table after ∧
      (∀ r ∈ after.rows, r ∈ outdatedTable.rows) ∧
      ¬ ∃ record, Operation.upsert record ∈ applied (scan.calls losing) := by
  intro scan losing
  obtain ⟨hHere, hWritten, hLost⟩ := scanFile_playlist
  have hFile : ∀ a, playlistTree.attributes playlistPath.absolute = .ok a →
      a.isDirectory = false := by
    intro a ha
    rw [← Except.ok.inj (hHere.symm.trans ha)]
    rfl
  have hProper : playlistPath.IsProper := by decide
  obtain ⟨p, after, -, hAfter, -, hTold, -⟩ := file_scan_tells_written playlistTree_wellFormed
    hProper outdatedTable_sound rfl hFile hWritten
  obtain ⟨p', after', -, hAfter', hWrote, -, hSilent⟩ := file_scan_tells_written
    playlistTree_wellFormed hProper outdatedTable_sound rfl hFile hLost
  obtain ⟨a, record, r, ha, -, hRow, hId, -, hSize, -⟩ := hTold 1 rfl
  obtain rfl := Except.ok.inj (hHere.symm.trans ha)
  refine ⟨⟨after, r, hAfter, hRow, hId, hSize⟩, after', hAfter', (hSilent rfl).1, ?_⟩
  rw [← hWrote]
  exact Bool.false_ne_true

end MediaIndex.Reconcile
