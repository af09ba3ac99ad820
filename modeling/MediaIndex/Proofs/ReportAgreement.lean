import MediaIndex.Proofs.ClearTrees
import MediaIndex.Proofs.Kinds
import MediaIndex.Proofs.PathReading
import MediaIndex.Proofs.ReportRows
import MediaIndex.Proofs.Volumes

/-!
# The report and the pass

The report asks the disk for the path of every row, while a pass goes by what directories list. For
an entry that is visited both come to the same answer, for its attributes are those of what its path
leads to. So a pass that loses nothing does what the report has announced, and a report made right
after it finds every row present.
-/

namespace MediaIndex

namespace Disk

/-- What the path of the attributes leads to, links followed, is what they describe. -/
structure Tree.Shows (t : Tree) (a : Attributes) (target : Place × Node) : Prop where
  absolute : a.path.IsAbsolute
  stat : t.stat a.path = .ok target
  same : a = .ofNode a.path target.2 target.2.isDirectory

namespace Tree.Shows

variable {t : Tree} {a : Attributes} {target : Place × Node} (h : t.Shows a target)

include h

theorem size : a.size = target.2.sizeOrDefault := congrArg (·.size) h.same

theorem modifiedSecond : a.modifiedSecond = target.2.modifiedOrDefault.truncate :=
  congrArg (·.modifiedSecond) h.same

theorem isDirectory : a.isDirectory = target.2.isDirectory := congrArg (·.isDirectory) h.same

end Tree.Shows

end Disk

namespace Walk

open Disk

/-- A root that is a link to anything but a file would be described itself. -/
theorem shows_of_mem_visits {t : Tree} {root : Path} {b : Attributes} (hTree : t.WellFormed)
    (hRoot : root.IsAbsolute) (hOwn : ∀ own, t.statOwn root = .ok own → own.2.isLink = false)
    (h : b ∈ visits t root) : ∃ target, t.Shows b target := by
  have hAbsolute := isAbsolute_of_mem_visits hTree hRoot h
  obtain ⟨a, hAttributes, hb⟩ := attributes_of_mem_visits h
  rcases (mem_below_iff.mp hb).eq_or_mem_children with rfl | ⟨directory, hChild⟩
  · obtain ⟨own, hStat, -⟩ := bind_eq_ok_iff.mp hAttributes
    have hLink := hOwn own hStat
    have hPath := Tree.attributes_path hAttributes
    rw [Tree.attributes_of_ne_link hStat hLink, ← hPath, Except.ok.injEq] at hAttributes
    rw [← hPath] at hRoot hStat
    exact ⟨own, hAbsolute, Tree.stat_of_statOwn hRoot hStat hLink, hAttributes.symm⟩
  · obtain ⟨target, hStat, hSame⟩ := ofNode_of_mem_children hChild
    exact ⟨target, hAbsolute, hStat, hSame⟩

end Walk

namespace Report

open Catalog (Cell Row Store Table)
open Disk (Attributes Tree)
open Reconcile (matchesEntry)

variable {t : Tree} {r : Row} {a : Attributes} {target : Disk.Place × Disk.Node}

/-! ## What the report says of a row -/

theorem exists_stat_of_status {status : Status} (h : Report.status t r = .ok status)
    (hFound : status ≠ .missing) :
    ∃ target, t.stat (Path.ofText (cellText (r.cells .path))) = .ok target := by
  cases hStat : t.stat (Path.ofText (cellText (r.cells .path))) with
  | ok target => exact ⟨target, rfl⟩
  | error fault =>
    simp only [Report.status, hStat] at h
    split at h
    · cases h
    · cases fault <;> cases h
      exact absurd rfl hFound

theorem path_of_shows (h : t.Shows a target) (hPath : r.cells .path = .text a.path.text) :
    Path.ofText (cellText (r.cells .path)) = a.path := by
  rw [hPath]
  exact h.absolute.ofText_text

/-- Of a row at the path of an entry the report says what a pass would make of it. -/
theorem status_eq (h : t.Shows a target) (hPath : r.cells .path = .text a.path.text) :
    Report.status t r = .ok (if a.isDirectory || matchesEntry a
      ⟨r.id, r.cells .size, r.cells .dateModified⟩ then .present else .changed) := by
  have hDirectory := Tree.isDirectory?_of_stat h.stat
  have hZero := h.absolute.proper.hasZero_eq_false
  simp only [Report.status, path_of_shows h hPath, hZero, h.stat, hDirectory, matchesEntry, h.size,
    h.modifiedSecond, h.isDirectory, Except.mapError, bind, Except.bind, pure, Except.pure]
  cases target.2.isDirectory <;> simp

/-! ## What a report says of rows that are all present -/

/-- A report over one root, on a store that answers. -/
theorem inventory_eq {s : Store} {table : Table} (hs : s.contents = .table table)
    (hAnswers : s.Answers) {root : Path} {status : Row → Status}
    (h : ∀ r ∈ table.rows, Table.isUnder root r = true → Report.status t r = .ok (status r)) :
    (inventory t s [root]).1 = ⟨csvRow headings ++ String.join ((table.rowsUnder root).map fun r =>
      csvRow (fields r (status r))), (table.rowsUnder root).length, none⟩ := by
  have hRows : ∀ r ∈ [root].flatMap table.rowsUnder, Report.status t r = .ok (status r) := by
    intro r hr
    rw [List.flatMap_singleton, Table.mem_rowsUnder] at hr
    exact h r hr.1 hr.2
  rw [inventory, addRoots_eq hs hAnswers hRows, List.flatMap_singleton, Nat.zero_add]

end Report

namespace Reconcile

open Catalog (Cell Row Store Table)
open Disk (Attributes Tree)

variable {t : Tree} {p : Pass} {before middle after : Table} {walk sweep : List Call}
  {half full : Queue} {r : Row}

section

variable {volume : String} {a : Attributes} {target : Disk.Place × Disk.Node} {later : Row}
  (h : RowDue t volume before a later) (hBefore : before.Sound) (hShows : t.Shows a target)
  (hPath : later.cells .path = .text a.path.text)

include h hBefore hShows hPath

theorem RowDue.present : Report.status t later = .ok .present := by
  obtain ⟨-, hFits⟩ := h.keepsRow hBefore
  rw [Report.status_eq hShows hPath, if_pos]
  rwa [Bool.or_eq_true]

/-- A changed row is not kept, so the row that is due has been written. -/
theorem RowDue.written_of_changed (hr : r ∈ before.rows)
    (hSame : r.cells .path = later.cells .path) (hChanged : Report.status t r = .ok .changed) :
    later.cells .size = .integer target.2.sizeOrDefault ∧
      later.cells .dateModified = .integer target.2.modifiedOrDefault.truncate := by
  cases h with
  | kept hKept hRow =>
    have hPresent := (RowDue.kept hKept hRow).present hBefore hShows hPath
    rw [← hPath, ← hSame, hBefore.rowOf?_of_mem hr, Option.some.injEq] at hRow
    rw [← hRow, hChanged] at hPresent
    cases hPresent
  | written hTaken hStorable hCells _ =>
    rw [hCells, ← hShows.size, ← hShows.modifiedSecond]
    exact ⟨size_of_taken hTaken hStorable, dateModified_of_taken hTaken hStorable⟩

end

/-- If all rows at or below the root are of the volume of a pass that loses nothing, then each row
there is due to an entry afterwards, and the disk shows the entry. -/
theorem Complete.shows_of_isUnder (h : Complete t p before middle after walk sweep half full)
    (hTree : t.WellFormed) (hBefore : before.Sound) (hRoot : p.root.IsAbsolute)
    (hFailed : full.failed = 0)
    (hOwn : ∀ own, t.statOwn p.root = .ok own → own.2.isLink = false)
    (hVolumes : ∀ r ∈ before.rows, Table.isUnder p.root r = true →
      r.cells .volumeName = .text p.volume)
    (hr : r ∈ after.rows) (hUnder : Table.isUnder p.root r = true) :
    ∃ a target, t.Shows a target ∧ r.cells .path = .text a.path.text ∧
      RowDue t p.volume before a r := by
  have hIsOf : Table.IsOf p.volume p.root r := by
    refine ⟨?_, (Table.isUnder_iff hRoot.zero_notMem_text r).mp hUnder⟩
    rcases h.mem_before_or_written hr with hOld | hNew
    · exact hVolumes r hOld hUnder
    · exact hNew
  obtain ⟨a, ha, hText, hDue⟩ := h.rowDue_of_isOf hTree hBefore hRoot hFailed hr hIsOf
  obtain ⟨target, hShows⟩ :=
    Walk.shows_of_mem_visits hTree hRoot hOwn (Pass.mem_visits_of_mem_visited ha)
  exact ⟨a, target, hShows, hText, hDue⟩

/-- Where all rows at or below the root of a pass are of its volume, and the root is no link, a pass
that returns and loses no batch leaves no row for what the report calls missing, and for what it
calls changed at most a row with the size and the second that the disk gives. A report made right
after it calls every row present. -/
theorem report_agrees {path : Path} {told : Bool} {size : Int} {s : Store}
    (hTree : t.WellFormed) (hPath : path.IsProper) (hBefore : before.Sound)
    (hStart : Pass.start t path told size = .ok p) (hs : s.contents = .table before)
    (hOwn : ∀ own, t.statOwn p.root = .ok own → own.2.isLink = false)
    (hVolumes : ∀ r ∈ before.rows, Table.isUnder p.root r = true →
      r.cells .volumeName = .text p.volume)
    (hReturns : ((p.run t).run s).result.failure = none)
    (hFailed : ((p.run t).run s).result.pass.queue.failed = 0) :
    ∃ after, ((p.run t).run s).store.contents = .table after ∧
      (∀ r ∈ before.rows, Table.isUnder p.root r = true → Report.status t r = .ok .missing →
        after.rowOf? (r.cells .path) = none) ∧
      (∀ r ∈ before.rows, Table.isUnder p.root r = true → Report.status t r = .ok .changed →
        ∃ target, t.stat (Path.ofText (Report.cellText (r.cells .path))) = .ok target ∧
          ∀ later, after.rowOf? (r.cells .path) = some later →
            later.cells .size = .integer target.2.sizeOrDefault ∧
            later.cells .dateModified = .integer target.2.modifiedOrDefault.truncate) ∧
      (∀ r ∈ after.rowsUnder p.root, Report.status t r = .ok .present) ∧
      ∀ s' : Store, s'.contents = .table after → s'.Answers →
        (Report.inventory t s' [p.root]).1 = ⟨Report.csvRow Report.headings ++
          String.join ((after.rowsUnder p.root).map fun r =>
            Report.csvRow (Report.fields r .present)), (after.rowsUnder p.root).length, none⟩ := by
  have hRoot : p.root.IsAbsolute := (Pass.start_eq_ok hStart).2 ▸ hPath.absolute
  obtain ⟨after, middle, walk, sweep, half, hAfter, -, h⟩ :=
    complete_of_run hTree hPath hBefore hStart hs hReturns
  have hShows : ∀ r ∈ after.rows, Table.isUnder p.root r = true → ∃ a target, t.Shows a target ∧
      r.cells .path = .text a.path.text ∧ RowDue t p.volume before a r := fun r hr hUnder =>
    h.shows_of_isUnder hTree hBefore hRoot hFailed hOwn hVolumes hr hUnder
  have hPresent : ∀ r ∈ after.rows, Table.isUnder p.root r = true →
      Report.status t r = .ok .present := by
    intro r hr hUnder
    obtain ⟨a, target, ha, hText, hDue⟩ := hShows r hr hUnder
    exact hDue.present hBefore ha hText
  -- The row that is left at a path lies at or below the root if one did that was there before.
  have hLater : ∀ r later, Table.isUnder p.root r = true →
      after.rowOf? (r.cells .path) = some later → ∃ a target, t.Shows a target ∧
        r.cells .path = later.cells .path ∧ later.cells .path = .text a.path.text ∧
        RowDue t p.volume before a later := by
    intro r later hUnder hRow
    obtain ⟨hMem, hSame⟩ := Table.mem_of_rowOf?_eq_some hRow
    obtain ⟨a, target, ha, hText, hDue⟩ := hShows later hMem (by
      rwa [Table.isUnder, Row.path?, hSame])
    exact ⟨a, target, ha, hSame.symm, hText, hDue⟩
  refine ⟨after, hAfter, ?_, ?_, ?_, ?_⟩
  · intro r hr hUnder hMissing
    rw [Option.eq_none_iff_forall_ne_some]
    intro later hRow
    obtain ⟨a, target, ha, hSame, hText, -⟩ := hLater r later hUnder hRow
    rw [Report.status_eq ha (hSame.trans hText)] at hMissing
    split at hMissing <;> cases hMissing
  · intro r hr hUnder hChanged
    obtain ⟨target, hStat⟩ := Report.exists_stat_of_status hChanged (by decide)
    refine ⟨target, hStat, fun later hRow => ?_⟩
    obtain ⟨a, target', ha, hSame, hText, hDue⟩ := hLater r later hUnder hRow
    rw [Report.path_of_shows ha (hSame.trans hText), ha.stat, Except.ok.injEq] at hStat
    exact hStat ▸ hDue.written_of_changed hBefore ha hText hr hSame hChanged
  · intro r hr
    rw [Table.mem_rowsUnder] at hr
    exact hPresent r hr.1 hr.2
  · intro s' hContents hAnswers
    exact Report.inventory_eq hContents hAnswers hPresent

/-- A file that has grown is listed as changed and one that is gone as missing. -/
theorem report_agrees_playlist :
    let run := (playlistPass.run playlistTree).run (.ofTable outdatedTable 0)
    (Report.status playlistTree (outdatedRow 1 "/m/a.m3u") = .ok .changed ∧
      Report.status playlistTree (outdatedRow 4 "/m/gone.m3u") = .ok .missing) ∧
      ∃ after, run.store.contents = .table after ∧
        after.rowOf? (.text "/m/gone.m3u") = none ∧
        (∀ later, after.rowOf? (.text "/m/a.m3u") = some later →
          later.cells .size = .integer 0) ∧
        ∀ r ∈ after.rowsUnder ⟨.root, ["m"]⟩, Report.status playlistTree r = .ok .present := by
  intro run
  have hHealthy : (Store.ofTable outdatedTable 0).Healthy := ⟨⟨rfl, rfl, rfl⟩, rfl, rfl⟩
  have hStat : playlistTree.stat playlistFile.path = .ok (["m", "a.m3u"], .plain .file) := by cbv
  have hShows : playlistTree.Shows playlistFile (["m", "a.m3u"], .plain .file) :=
    ⟨(show playlistFile.path.IsProper by decide).absolute, hStat, rfl⟩
  have hChanged : Report.status playlistTree (outdatedRow 1 "/m/a.m3u") = .ok .changed := by
    rw [Report.status_eq hShows (by decide), if_neg (by decide +kernel)]
  have hMissing : Report.status playlistTree (outdatedRow 4 "/m/gone.m3u") = .ok .missing :=
    Report.status_of_unseen (by cbv) (by cbv)
  have hVolumes : ∀ r ∈ outdatedTable.rows, r.cells .volumeName = .text "/" := by
    simp [outdatedTable, outdatedRow]
  have hRoot : playlistTree.statOwn playlistPass.root = .ok (["m"], .plain .directory) := by cbv
  obtain ⟨after, hAfter, hGone, hGrown, hPresent, -⟩ := report_agrees playlistTree_wellFormed
    playlist_isProper outdatedTable_sound playlist_start rfl
    (fun own hOwn => Except.ok.inj (hRoot.symm.trans hOwn) ▸ rfl) (fun r hr _ => hVolumes r hr)
    (playlist_returns rfl hHealthy.toAnswers) (playlist_failed rfl hHealthy)
  refine ⟨⟨hChanged, hMissing⟩, after, hAfter, ?_, ?_, hPresent⟩
  · exact hGone (outdatedRow 4 "/m/gone.m3u") (by simp [outdatedTable]) (by cbv) hMissing
  · obtain ⟨target, hTarget, hSame⟩ :=
      hGrown (outdatedRow 1 "/m/a.m3u") (by simp [outdatedTable]) (by cbv) hChanged
    rw [Report.path_of_shows hShows (by decide), hStat, Except.ok.injEq] at hTarget
    subst hTarget
    exact fun later hRow => (hSame later hRow).1

end Reconcile

end MediaIndex
