import MediaIndex.Proofs.CleanPass

/-!
# Rows of several volumes

A pass looks up and deletes rows of its own volume alone, while its walk goes on through mount
points. A row of another volume is therefore replaced where the walk takes something in, and else it
stays, whether or not anything is left at its path. After any history of clean passes every row at
or below the root of the last one is of an entry that it confirmed, or it is one of another volume
which an earlier pass filed.
-/

namespace MediaIndex.Reconcile

open Catalog (Cell Contents Record Row Store Table)
open Disk (Attributes Node Tree)

variable {t : Tree} {p : Pass} {before now middle after : Table} {walk sweep : List Call}
  {half full : Queue} {r : Row} {start : Table} {volumes : List String}

/-- The tables that clean passes may come to, over any paths and while the tree changes between
them, with the volumes of the passes. -/
inductive CleanPasses (start : Table) : List String → Table → Prop
  | none : CleanPasses start [] start
  | more {t : Tree} {p : Pass} {path : Path} {told : Bool} {size : Int} {s : Store}
      {now after : Table} {volumes : List String} (h : CleanPasses start volumes now)
      (hTree : t.WellFormed) (hPath : path.IsProper)
      (hStart : Pass.start t path told size = .ok p) (hs : s.contents = .table now)
      (hReturns : ((p.run t).run s).result.failure = none)
      (hFailed : ((p.run t).run s).result.pass.queue.failed = 0)
      (hAfter : ((p.run t).run s).store.contents = .table after) :
      CleanPasses start (p.volume :: volumes) after

/-- A row is one that was there before, or it was written for an entry of the volume. -/
theorem Ran.mem_before_or_written (h : Ran t p before middle after walk sweep)
    (hr : r ∈ after.rows) : r ∈ before.rows ∨ r.cells .volumeName = .text p.volume := by
  apply (h.mem_before_or_taken hr).imp_right
  rintro ⟨a, -, record, hTaken, -, hCells⟩
  rw [hCells, volumeName_of_taken hTaken]

theorem CleanPasses.sound (h : CleanPasses start volumes now) (hSound : start.Sound) :
    now.Sound := by
  induction h with
  | none => exact hSound
  | more h hTree hPath hStart hs hReturns hFailed hAfter ih =>
    obtain ⟨after, _, _, _, _, hEnd, -, hRan, -⟩ := ran_of_run hTree hPath ih hStart hs
    obtain rfl := Contents.table.inj (hAfter.symm.trans hEnd)
    exact hRan.erases.sound

/-- Every row was there from the start, or it is of the volume of a pass that filed it. -/
theorem CleanPasses.filed (h : CleanPasses start volumes now) (hSound : start.Sound) :
    ∀ r ∈ now.rows, r ∈ start.rows ∨ ∃ volume ∈ volumes, r.cells .volumeName = .text volume := by
  induction h with
  | none => exact fun r hr => .inl hr
  | more h hTree hPath hStart hs hReturns hFailed hAfter ih =>
    obtain ⟨after, _, _, _, _, hEnd, -, hRan, -⟩ :=
      ran_of_run hTree hPath (h.sound hSound) hStart hs
    obtain rfl := Contents.table.inj (hAfter.symm.trans hEnd)
    intro r hr
    rcases hRan.mem_before_or_written hr with hOld | hNew
    · refine (ih r hOld).imp id ?_
      rintro ⟨volume, hVolume, hName⟩
      exact ⟨volume, List.mem_cons_of_mem _ hVolume, hName⟩
    · exact .inr ⟨_, List.mem_cons_self, hNew⟩

/-- A row of another volume stays exactly where the pass keeps nothing and takes nothing in. -/
theorem Complete.mem_after_iff_of_other_volume
    (h : Complete t p before middle after walk sweep half full) (hTree : t.WellFormed)
    (hBefore : before.Sound) (hRoot : p.root.IsAbsolute) (hFailed : full.failed = 0)
    (hr : r ∈ before.rows) (hVolume : r.cells .volumeName ≠ .text p.volume) :
    r ∈ after.rows ↔ ∀ a ∈ p.visited t, r.cells .path = .text a.path.text →
      standing t p.volume before a = .passed := by
  constructor
  · intro hStays a ha hText
    by_contra hStanding
    have hConfirmed := (h.confirmed_iff hFailed ha).mpr hStanding
    obtain ⟨other, hMiddle, hIsOf, -⟩ := h.exists_rowDue hTree hBefore hRoot ha hConfirmed
    have hRow := h.erases.sound.rowOf?_of_mem hStays
    rw [hText, h.after_of_confirmed ha hConfirmed hMiddle, Option.some.injEq] at hRow
    exact hVolume (hRow ▸ hIsOf.1)
  · intro hPassed
    have hNone : ¬ ∃ a ∈ p.visited t, r.cells .path = .text a.path.text ∧
        Confirmed t p.volume before walk a := by
      rintro ⟨a, ha, hText, hConfirmed⟩
      exact (h.confirmed_iff hFailed ha).mp hConfirmed (hPassed a ha hText)
    have hRow := h.after_of_unconfirmed hBefore hRoot hFailed hNone
    rw [hBefore.rowOf?_of_mem hr, Option.filter_some_pos] at hRow
    · exact (Table.mem_of_rowOf?_eq_some hRow).1
    · simp [Row.hasText, hVolume]

/-- After a history of clean passes a further one leaves at or below its root rows of entries that
it visited and confirmed, and rows of other volumes than its own as they were before it, which were
there from the start or are of the volume of an earlier pass. Of the rows of other volumes it leaves
those at whose paths it keeps nothing and takes nothing in, and no others. -/
theorem covered_rows {path : Path} {told : Bool} {size : Int} {s : Store} (hSound : start.Sound)
    (hPasses : CleanPasses start volumes before) (hTree : t.WellFormed) (hPath : path.IsProper)
    (hStart : Pass.start t path told size = .ok p) (hs : s.contents = .table before)
    (hReturns : ((p.run t).run s).result.failure = none)
    (hFailed : ((p.run t).run s).result.pass.queue.failed = 0) :
    ∃ after, ((p.run t).run s).store.contents = .table after ∧
      (∀ r ∈ after.rows, ∀ text, r.cells .path = .text text → p.root.Covers text →
        (r.cells .volumeName = .text p.volume ∧ ∃ a ∈ p.visited t, a.path.text = text ∧
          RowDue t p.volume before a r) ∨
        (r.cells .volumeName ≠ .text p.volume ∧ r ∈ before.rows ∧
          (r ∈ start.rows ∨ ∃ volume ∈ volumes, r.cells .volumeName = .text volume))) ∧
      ∀ r ∈ before.rows, r.cells .volumeName ≠ .text p.volume →
        (r ∈ after.rows ↔ ∀ a ∈ p.visited t, r.cells .path = .text a.path.text →
          standing t p.volume before a = .passed) := by
  have hBefore := hPasses.sound hSound
  have hRoot : p.root.IsAbsolute := (Pass.start_eq_ok hStart).2 ▸ hPath.absolute
  obtain ⟨after, _, _, _, _, hAfter, -, h⟩ :=
    complete_of_run hTree hPath hBefore hStart hs hReturns
  refine ⟨after, hAfter, ?_, ?_⟩
  · intro r hr text hText hCovers
    by_cases hVolume : r.cells .volumeName = .text p.volume
    · left
      obtain ⟨a, ha, hSame, hDue⟩ :=
        h.rowDue_of_isOf hTree hBefore hRoot hFailed hr ⟨hVolume, text, hText, hCovers⟩
      exact ⟨hVolume, a, ha, (Cell.text.inj (hText.symm.trans hSame)).symm, hDue⟩
    · right
      have hOld := (h.mem_before_or_written hr).resolve_right hVolume
      exact ⟨hVolume, hOld, hPasses.filed hSound r hOld⟩
  · intro r hr hVolume
    exact h.mem_after_iff_of_other_volume hTree hBefore hRoot hFailed hr hVolume

/-! ## A file that is gone from a mount point -/

/-- A directory with the mount point of a drive in it. -/
def driveTree (files : List (Disk.Place × Node)) : Tree :=
  ⟨.plain .directory, (["m"], .plain .directory) ::
    (["m", "v"], { Node.plain .directory with device := some 2 }) :: files⟩

def fullDrive : Tree :=
  driveTree [(["m", "v", "x.m3u"], { Node.plain .file with size := some 3 })]

def emptyDrive : Tree := driveTree []

def drive : Attributes :=
  ⟨⟨.root, ["m", "v"]⟩, 4096, Node.defaultTime, Node.defaultTime, true⟩

def driveFile : Attributes :=
  ⟨⟨.root, ["m", "v", "x.m3u"]⟩, 3, Node.defaultTime, Node.defaultTime, false⟩

def drivePass : Pass := ⟨⟨.root, ["m", "v"]⟩, "/m/v", false, .ofSize 32, .notStarted, .zero⟩

theorem fullDrive_wellFormed : fullDrive.WellFormed := ⟨by decide, by decide⟩

theorem emptyDrive_wellFormed : emptyDrive.WellFormed := ⟨by decide, by decide⟩

theorem drive_isProper : Path.IsProper ⟨.root, ["m", "v"]⟩ := by decide

theorem fullDrive_start : Pass.start fullDrive ⟨.root, ["m", "v"]⟩ false 32 = .ok drivePass := by
  cbv

theorem emptyDrive_start : Pass.start emptyDrive ⟨.root, ["m"]⟩ false 32 = .ok playlistPass := by
  cbv

theorem fullDrive_reports : drivePass.Reports fullDrive
    [.visit drive, .visit driveFile, .leave drive.path] :=
  ⟨by cbv, Walk.walk_of_single (by cbv) (by cbv) (by cbv), by decide +kernel⟩

theorem emptyDrive_reports : playlistPass.Reports emptyDrive
    [.visit playlistDirectory, .visit drive, .leave drive.path, .leave ⟨.root, ["m"]⟩] :=
  ⟨by cbv, Walk.walk_of_nested (by cbv) (by cbv) (by cbv), by decide +kernel⟩

theorem driveFile_taken :
    ∃ record, standing fullDrive "/m/v" .empty driveFile = .taken record :=
  exists_taken_of_isSome (by decide +kernel)

/-- The pass over the mount point files the file under the volume of the drive. -/
theorem fullDrive_filed :
    let first := (drivePass.run fullDrive).run (.ofTable .empty 0)
    (first.result.failure = none ∧ first.result.pass.queue.failed = 0) ∧
      ∃ between r, first.store.contents = .table between ∧ between.Sound ∧ between.Numbered 2 ∧
        between.rowOf? (.text "/m/v/x.m3u") = some r ∧ r.cells .volumeName = .text "/m/v" := by
  intro first
  have hHealthy : (Store.ofTable .empty 0).Healthy := ⟨⟨rfl, rfl, rfl⟩, rfl, rfl⟩
  obtain ⟨hReturns, hFailed, between, hBetween, hSound, hNumbered⟩ :=
    clean_of_healthy fullDrive_wellFormed drive_isProper Table.sound_empty fullDrive_start rfl
      hHealthy fullDrive_reports.quiet fullDrive_reports.storable Table.numbered_empty (by decide)
  obtain ⟨_, _, _, _, _, hAfter, -, h⟩ :=
    complete_of_run fullDrive_wellFormed drive_isProper Table.sound_empty fullDrive_start rfl
      hReturns
  obtain rfl := Contents.table.inj (hAfter.symm.trans hBetween)
  have hFile : driveFile ∈ drivePass.visited fullDrive := by
    rw [fullDrive_reports.visited]
    exact List.mem_cons_of_mem _ List.mem_cons_self
  obtain ⟨record, hTaken⟩ := driveFile_taken
  obtain ⟨r, hRow, hCells⟩ := h.row_of_taken fullDrive_wellFormed Table.sound_empty
    drive_isProper.absolute hFailed hFile hTaken
  rw [fullDrive_reports.visited] at hNumbered
  exact ⟨⟨hReturns, hFailed⟩, _, r, hBetween, hSound, hNumbered, hRow,
    by rw [hCells, volumeName_of_taken hTaken]⟩

/-- Once the file is gone, a pass over the directory above the mount point is clean as well. -/
theorem emptyDrive_clean :
    let first := (drivePass.run fullDrive).run (.ofTable .empty 0)
    let second := (playlistPass.run emptyDrive).run first.store
    second.result.failure = none ∧ second.result.pass.queue.failed = 0 := by
  intro first second
  have hHealthy : (Store.ofTable .empty 0).Healthy := ⟨⟨rfl, rfl, rfl⟩, rfl, rfl⟩
  obtain ⟨-, between, -, hBetween, hSound, hNumbered, -⟩ := fullDrive_filed
  obtain ⟨hReturns, hFailed, -⟩ := clean_of_healthy emptyDrive_wellFormed playlist_isProper hSound
    emptyDrive_start hBetween ((drivePass.run fullDrive).healthy_run hHealthy).1
    emptyDrive_reports.quiet emptyDrive_reports.storable hNumbered (by decide)
  exact ⟨hReturns, hFailed⟩

theorem emptyDrive_unvisited :
    ∀ a ∈ playlistPass.visited emptyDrive, a.path.text ≠ "/m/v/x.m3u" := by
  rw [emptyDrive_reports.visited]
  decide

theorem covered_rows_drive :
    let first := (drivePass.run fullDrive).run (.ofTable .empty 0)
    let second := (playlistPass.run emptyDrive).run first.store
    (second.result.failure = none ∧ second.result.pass.queue.failed = 0) ∧
      ∃ after, second.store.contents = .table after ∧
        ∃ r ∈ after.rows, r.cells .path = .text "/m/v/x.m3u" := by
  intro first second
  obtain ⟨⟨hReturns, hFailed⟩, between, r, hBetween, -, -, hRow, hVolume⟩ := fullDrive_filed
  have hPasses : CleanPasses .empty ["/m/v"] between :=
    .more .none fullDrive_wellFormed drive_isProper fullDrive_start rfl hReturns hFailed hBetween
  obtain ⟨after, hAfter, -, hOthers⟩ := covered_rows Table.sound_empty hPasses
    emptyDrive_wellFormed playlist_isProper emptyDrive_start hBetween emptyDrive_clean.1
    emptyDrive_clean.2
  obtain ⟨hr, hPath⟩ := Table.mem_of_rowOf?_eq_some hRow
  have hStays := (hOthers r hr (by rw [hVolume]; decide)).mpr fun a ha hText =>
    absurd (Cell.text.inj (hPath.symm.trans hText)).symm (emptyDrive_unvisited a ha)
  exact ⟨emptyDrive_clean, after, hAfter, r, hStays, hPath⟩

/-- The row of the file that is gone stays below the root of a clean pass that does not visit its
path. -/
theorem unvisited_row_stays :
    let first := (drivePass.run fullDrive).run (.ofTable .empty 0)
    let second := (playlistPass.run emptyDrive).run first.store
    Pass.start fullDrive ⟨.root, ["m", "v"]⟩ false 32 = .ok drivePass ∧
      (first.result.failure = none ∧ first.result.pass.queue.failed = 0) ∧
      Pass.start emptyDrive ⟨.root, ["m"]⟩ false 32 = .ok playlistPass ∧
      (second.result.failure = none ∧ second.result.pass.queue.failed = 0) ∧
      ∃ after, second.store.contents = .table after ∧
        ∃ r ∈ after.rows, r.cells .path = .text "/m/v/x.m3u" ∧
          playlistPass.root.Covers "/m/v/x.m3u" ∧
          ∀ a ∈ playlistPass.visited emptyDrive, a.path.text ≠ "/m/v/x.m3u" := by
  intro first second
  obtain ⟨hFirst, between, r, hBetween, hSound, -, hRow, hVolume⟩ := fullDrive_filed
  obtain ⟨hReturns, hFailed⟩ := emptyDrive_clean
  obtain ⟨after, _, _, _, _, hAfter, -, h⟩ := complete_of_run emptyDrive_wellFormed
    playlist_isProper hSound emptyDrive_start hBetween hReturns
  obtain ⟨hr, hPath⟩ := Table.mem_of_rowOf?_eq_some hRow
  have hStays := (h.mem_after_iff_of_other_volume emptyDrive_wellFormed hSound
    playlist_isProper.absolute hFailed hr (by rw [hVolume]; decide)).mpr fun a ha hText =>
      absurd (Cell.text.inj (hPath.symm.trans hText)).symm (emptyDrive_unvisited a ha)
  exact ⟨fullDrive_start, hFirst, emptyDrive_start, ⟨hReturns, hFailed⟩, after, hAfter, r, hStays,
    hPath, .inr (by decide), emptyDrive_unvisited⟩

end MediaIndex.Reconcile
