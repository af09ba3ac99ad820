import Mathlib
import MediaIndex.Proofs.ReturningPass

/-!
# Reconciliation is exact

After a pass that returns and loses no batch, the rows of its volume at or below its root are one
for each visited entry that is kept or taken in, and no others. A kept row is as before; a written
one has the columns of the record, under the number that its path had, or a new one.
-/

namespace MediaIndex.Reconcile

open Catalog (Cell Column Record Row Store Table)
open Disk (Attributes Node Tree)

/-- The row is the one that a pass owes to an entry it visits. -/
inductive RowDue (t : Tree) (volume : String) (before : Table) (a : Attributes) (r : Row) : Prop
  | kept {entry : Catalog.Entry} (h : standing t volume before a = .kept entry)
      (hRow : before.rowOf? (.text a.path.text) = some r) : RowDue t volume before a r
  | written {record : Record} (h : standing t volume before a = .taken record)
      (hStorable : Media.IsStorable record) (hCells : r.cells = record.cells)
      (hInherits : r.Inherits (before.rowOf? (.text a.path.text)) before.counter) :
      RowDue t volume before a r

variable {t : Tree} {p : Pass} {before middle after : Table} {walk sweep : List Call}
  {half full : Queue} {a : Attributes}

theorem Complete.confirmed_iff (h : Complete t p before middle after walk sweep half full)
    (hFailed : full.failed = 0) (ha : a ∈ p.visited t) :
    Confirmed t p.volume before walk a ↔ standing t p.volume before a ≠ .passed := by
  rw [Confirmed, h.written_eq hFailed]
  cases hStanding : standing t p.volume before a with
  | kept entry => simp
  | passed => simp
  | taken record => simpa using mem_dueRecords.mpr ⟨a, ha, hStanding⟩

theorem Complete.exists_rowDue (h : Complete t p before middle after walk sweep half full)
    (hTree : t.WellFormed) (hBefore : before.Sound) (hRoot : p.root.IsAbsolute)
    (ha : a ∈ p.visited t) (hConfirmed : Confirmed t p.volume before walk a) :
    ∃ r, middle.rowOf? (.text a.path.text) = some r ∧ Table.IsOf p.volume p.root r ∧
      RowDue t p.volume before a r := by
  have hCovers : p.root.Covers a.path.text :=
    Walk.covers_of_mem_visits hTree hRoot (Pass.mem_visits_of_mem_visited ha)
  rcases hConfirmed with ⟨entry, hKept⟩ | ⟨record, hRecord, hTaken⟩
  · obtain ⟨r, hRow, hMiddle, hVolume, -⟩ := h.middle_of_kept hBefore ha hKept
    have hPath := (Table.mem_of_rowOf?_eq_some hMiddle).2
    exact ⟨r, hMiddle, ⟨hVolume, _, hPath, hCovers⟩, .kept hKept hRow⟩
  · obtain ⟨r, hMiddle, hCells, hInherits⟩ := row_of_written h.writes hTaken hRecord
    have hPath := (Table.mem_of_rowOf?_eq_some hMiddle).2
    have hVolume : r.cells .volumeName = .text p.volume := by
      rw [hCells, volumeName_of_taken hTaken]
    have hStorable := h.storable record hRecord
    exact ⟨r, hMiddle, ⟨hVolume, _, hPath, hCovers⟩, .written hTaken hStorable hCells hInherits⟩

theorem Complete.confirmed_of_isOf (h : Complete t p before middle after walk sweep half full)
    (hBefore : before.Sound) (hRoot : p.root.IsAbsolute) (hFailed : full.failed = 0) {r : Row}
    (hr : r ∈ after.rows) (hIsOf : Table.IsOf p.volume p.root r) :
    ∃ a ∈ p.visited t, r.cells .path = .text a.path.text ∧ Confirmed t p.volume before walk a := by
  obtain ⟨hMiddle, hNotDeleted⟩ := h.rowOf?_after_iff.mp (h.swept.erases.sound.rowOf?_of_mem hr)
  rw [mem_erased_iff, (h.applied_eq hFailed).2,
    h.mem_operations_sweep_iff hBefore hRoot (Table.mem_of_rowOf?_eq_some hMiddle).1] at hNotDeleted
  exact Classical.not_not.mp fun hNone => hNotDeleted ⟨hIsOf, hNone⟩

theorem Complete.rowDue_of_isOf (h : Complete t p before middle after walk sweep half full)
    (hTree : t.WellFormed) (hBefore : before.Sound) (hRoot : p.root.IsAbsolute)
    (hFailed : full.failed = 0) {r : Row} (hr : r ∈ after.rows)
    (hIsOf : Table.IsOf p.volume p.root r) :
    ∃ a ∈ p.visited t, r.cells .path = .text a.path.text ∧ RowDue t p.volume before a r := by
  obtain ⟨a, ha, hText, hConfirmed⟩ := h.confirmed_of_isOf hBefore hRoot hFailed hr hIsOf
  obtain ⟨other, hMiddle, -, hDue⟩ := h.exists_rowDue hTree hBefore hRoot ha hConfirmed
  have hRow := h.after_of_confirmed ha hConfirmed hMiddle
  have hSame := h.swept.erases.sound.rowOf?_of_mem hr
  rw [hText, hRow, Option.some.injEq] at hSame
  exact ⟨a, ha, hText, hSame ▸ hDue⟩

/-- A pass that returns and loses no batch leaves exactly the rows that are due. -/
theorem reconciliation_exact {path : Path} {told : Bool} {size : Int} {s : Store}
    (hTree : t.WellFormed) (hPath : path.IsProper) (hBefore : before.Sound)
    (hStart : Pass.start t path told size = .ok p) (hs : s.contents = .table before)
    (hReturns : ((p.run t).run s).result.failure = none)
    (hFailed : ((p.run t).run s).result.pass.queue.failed = 0) :
    ∃ after, ((p.run t).run s).store.contents = .table after ∧ after.Sound ∧
      (∀ r ∈ after.rows, Table.IsOf p.volume p.root r →
        ∃ a ∈ p.visited t, r.cells .path = .text a.path.text ∧ RowDue t p.volume before a r) ∧
      ∀ a ∈ p.visited t, standing t p.volume before a ≠ .passed →
        ∃ r, RowDue t p.volume before a r ∧ ∀ other,
          (other ∈ after.rows ∧ Table.IsOf p.volume p.root other ∧
            other.cells .path = .text a.path.text) ↔ other = r := by
  obtain ⟨after, middle, walk, sweep, half, hAfter, -, h⟩ :=
    complete_of_run hTree hPath hBefore hStart hs hReturns
  have hRoot : p.root.IsAbsolute := (Pass.start_eq_ok hStart).2 ▸ hPath.absolute
  have hSound := h.swept.erases.sound
  refine ⟨after, hAfter, hSound, ?_, ?_⟩
  · intro r hr hIsOf
    exact h.rowDue_of_isOf hTree hBefore hRoot hFailed hr hIsOf
  · intro a ha hStanding
    have hConfirmed := (h.confirmed_iff hFailed ha).mpr hStanding
    obtain ⟨r, hMiddle, hIsOf, hDue⟩ := h.exists_rowDue hTree hBefore hRoot ha hConfirmed
    obtain ⟨hr, hText⟩ := Table.mem_of_rowOf?_eq_some
      (h.after_of_confirmed ha hConfirmed hMiddle)
    refine ⟨r, hDue, ?_⟩
    intro other
    constructor
    · rintro ⟨hOther, -, hOtherText⟩
      exact hSound.eq_of_path_eq hOther hr (hOtherText.trans hText.symm)
    · rintro rfl
      exact ⟨hr, hIsOf, hText⟩

/-! ## A pass over a playlist -/

-- Evaluating a walk unfolds list functions by equations that no single part of the library has, so
-- the whole of it is imported, here and for the modules that build on this one.

def playlistTree : Tree :=
  ⟨.plain .directory, [(["m"], .plain .directory), (["m", "a.m3u"], .plain .file)]⟩

def playlistDirectory : Attributes :=
  ⟨⟨.root, ["m"]⟩, 4096, Node.defaultTime, Node.defaultTime, true⟩

def playlistFile : Attributes :=
  ⟨⟨.root, ["m", "a.m3u"]⟩, 0, Node.defaultTime, Node.defaultTime, false⟩

def playlistPass : Pass := ⟨⟨.root, ["m"]⟩, "/", false, .ofSize 32, .notStarted, .zero⟩

def outdatedRow (id : Int) (path : String) : Row where
  id
  cells
    | .path => .text path
    | .volumeName => .text "/"
    | .size => .integer 3
    | .dateModified => .integer 1600000000
    | _ => .null
  added := ""

/-- A table with a row for the playlist, which is larger by now, and one for a file that is gone. -/
def outdatedTable : Table := ⟨[outdatedRow 1 "/m/a.m3u", outdatedRow 4 "/m/gone.m3u"], 6⟩

theorem playlistTree_wellFormed : playlistTree.WellFormed := ⟨by decide, by decide⟩

theorem outdatedTable_sound : outdatedTable.Sound := ⟨by decide, by decide, by decide⟩

theorem outdatedTable_numbered : outdatedTable.Numbered 6 := ⟨by decide, by decide, by decide⟩

theorem outdatedTable_fits : ∀ r ∈ outdatedTable.rows, Catalog.fitsWord r.id = true :=
  outdatedTable_numbered.fitsWord outdatedTable_sound (by decide)

theorem playlist_isProper : Path.IsProper ⟨.root, ["m"]⟩ := by decide

theorem playlist_start :
    Pass.start playlistTree ⟨.root, ["m"]⟩ false 32 = .ok playlistPass := by cbv

theorem playlist_walk : Walk.walk playlistTree playlistPass.root =
    [.visit playlistDirectory, .visit playlistFile, .leave ⟨.root, ["m"]⟩] :=
  Walk.walk_of_single (by cbv) (by cbv) (by cbv)

theorem playlist_reports : playlistPass.Reports playlistTree
    [.visit playlistDirectory, .visit playlistFile, .leave ⟨.root, ["m"]⟩] :=
  ⟨by cbv, playlist_walk, by decide +kernel⟩

theorem playlist_visited :
    playlistPass.visited playlistTree = [playlistDirectory, playlistFile] :=
  playlist_reports.visited

theorem playlist_returns {s : Store} (hs : s.contents = .table outdatedTable)
    (hAnswers : s.Answers) : ((playlistPass.run playlistTree).run s).result.failure = none :=
  returns_of_answers playlistTree_wellFormed playlist_isProper outdatedTable_sound playlist_start hs
    hAnswers playlist_reports.quiet (storable_of_records playlist_reports.storable outdatedTable)
    outdatedTable_fits

theorem playlist_failed {s : Store} (hs : s.contents = .table outdatedTable)
    (hHealthy : s.Healthy) :
    ((playlistPass.run playlistTree).run s).result.pass.queue.failed = 0 :=
  failed_eq_zero_of_healthy playlistTree_wellFormed playlist_isProper outdatedTable_sound
    playlist_start hs hHealthy playlist_reports.quiet
    (storable_of_records playlist_reports.storable outdatedTable) outdatedTable_fits

theorem reconciliation_exact_playlist :
    ∃ after, ((playlistPass.run playlistTree).run (.ofTable outdatedTable 0)).store.contents =
        .table after ∧ after.Sound ∧
      (∀ r ∈ after.rows, Table.IsOf "/" ⟨.root, ["m"]⟩ r → ∃ a ∈ playlistPass.visited playlistTree,
        r.cells .path = .text a.path.text ∧ RowDue playlistTree "/" outdatedTable a r) ∧
      ∀ a ∈ playlistPass.visited playlistTree, standing playlistTree "/" outdatedTable a ≠ .passed →
        ∃ r, RowDue playlistTree "/" outdatedTable a r ∧ ∀ other,
          (other ∈ after.rows ∧ Table.IsOf "/" ⟨.root, ["m"]⟩ other ∧
            other.cells .path = .text a.path.text) ↔ other = r := by
  have hHealthy : (Store.ofTable outdatedTable 0).Healthy := ⟨⟨rfl, rfl, rfl⟩, rfl, rfl⟩
  exact reconciliation_exact playlistTree_wellFormed playlist_isProper outdatedTable_sound
    playlist_start rfl (playlist_returns rfl hHealthy.toAnswers) (playlist_failed rfl hHealthy)

end MediaIndex.Reconcile
