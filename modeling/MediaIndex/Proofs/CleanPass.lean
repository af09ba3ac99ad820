import MediaIndex.Proofs.Exactness
import MediaIndex.Proofs.WalkInside

/-!
# What a clean pass leaves at each path

A pass is clean if it returns and loses no batch. What it leaves at a path is told by the table
before it: the row that is kept, the record that is taken in, or else whatever stood there, unless
it is one of the volume at or below the root. Over a healthy store a pass is clean if it meets no
interrupt and all that it can take in can be stored.
-/

namespace MediaIndex.Reconcile

open Catalog (Cell Column Contents Record Row Store Table)
open Disk (Attributes Tree)

variable {t : Tree} {p p' : Pass} {before now later middle after : Table} {walk sweep : List Call}
  {half full : Queue} {c : Cell}

namespace Pass

/-- What becomes of a path. One that is not visited is passed over. -/
def standingAt (t : Tree) (p : Pass) (now : Table) (c : Cell) : Standing :=
  match (p.visited t).find? fun a => c == .text a.path.text with
  | some a => standing t p.volume now a
  | none => .passed

/-- The cells that a pass leaves at a path if it loses nothing. -/
def cellsDue (t : Tree) (p : Pass) (now : Table) (c : Cell) : Option (Column → Cell) :=
  match p.standingAt t now c with
  | .kept _ => (now.rowOf? c).map (·.cells)
  | .taken record => some record.cells
  | .passed => ((now.rowOf? c).filter fun r =>
      !(r.hasText .volumeName p.volume && Table.isUnder p.root r)).map (·.cells)

theorem standingAt_cases (t : Tree) (p : Pass) (c : Cell) :
    (∃ a ∈ p.visited t, c = .text a.path.text ∧
      ∀ now, p.standingAt t now c = standing t p.volume now a) ∨
    (∀ a ∈ p.visited t, c ≠ .text a.path.text) ∧ ∀ now, p.standingAt t now c = .passed := by
  cases hFind : (p.visited t).find? fun a => c == .text a.path.text with
  | some a =>
    have ha := List.mem_of_find?_eq_some hFind
    have hText := List.find?_some hFind
    exact .inl ⟨a, ha, beq_iff_eq.mp hText, fun now => by rw [standingAt, hFind]⟩
  | none =>
    refine .inr ⟨fun a ha hText => ?_, fun now => by rw [standingAt, hFind]⟩
    exact List.find?_eq_none.mp hFind a ha (beq_iff_eq.mpr hText)

theorem standingAt_of_mem (hTree : t.WellFormed) (hRoot : p.root.IsAbsolute) {a : Attributes}
    (ha : a ∈ p.visited t) (now : Table) :
    p.standingAt t now (.text a.path.text) = standing t p.volume now a := by
  rcases standingAt_cases t p (.text a.path.text) with ⟨b, hb, hText, hAt⟩ | ⟨hNone, -⟩
  · have hSame := List.inj_on_of_nodup_map (nodup_visited_texts hTree hRoot) ha hb
      (Cell.text.inj hText)
    rw [hAt, hSame]
  · exact absurd rfl (hNone a ha)

theorem isSwept_iff (hRoot : p.root.IsAbsolute) {r : Row} :
    (r.hasText .volumeName p.volume && Table.isUnder p.root r) = true ↔
      Table.IsOf p.volume p.root r := by
  rw [Bool.and_eq_true, Table.isUnder_iff hRoot.zero_notMem_text, Row.hasText, beq_iff_eq,
    Table.IsOf]

theorem cellsDue_congr_pass (hRoot : p'.root = p.root) (hVolume : p'.volume = p.volume) :
    p'.cellsDue t now c = p.cellsDue t now c := by
  simp only [cellsDue, standingAt, visited_congr hRoot, hRoot, hVolume]

theorem standingAt_congr (hNow : now.Sound) (hLater : later.Sound)
    (h : later.rowOf? c = now.rowOf? c) : p.standingAt t later c = p.standingAt t now c := by
  rcases standingAt_cases t p c with ⟨a, -, rfl, hAt⟩ | ⟨-, hAt⟩
  · rw [hAt, hAt, standing_congr hNow hLater h]
  · rw [hAt, hAt]

/-- Where there is no row any more, a path stands as it did if its row was not kept. -/
theorem standingAt_of_rowOf?_eq_none (hLater : later.Sound)
    (hNow : ∀ entry, p.standingAt t now c ≠ .kept entry) (h : later.rowOf? c = none) :
    p.standingAt t later c = p.standingAt t now c := by
  rcases standingAt_cases t p c with ⟨a, -, rfl, hAt⟩ | ⟨-, hAt⟩
  · rw [hAt, hAt]
    refine standing_of_lookup_eq_none (fun entry => hAt now ▸ hNow entry) ?_
    rw [hLater.lookup_eq, h]
    rfl
  · rw [hAt, hAt]

/-- The row at the path decides what is due there. -/
theorem cellsDue_congr (hNow : now.Sound) (hLater : later.Sound)
    (h : later.rowOf? c = now.rowOf? c) : p.cellsDue t later c = p.cellsDue t now c := by
  rw [cellsDue, cellsDue, standingAt_congr hNow hLater h, h]

end Pass

theorem Complete.after_of_unconfirmed (h : Complete t p before middle after walk sweep half full)
    (hBefore : before.Sound) (hRoot : p.root.IsAbsolute) (hFailed : full.failed = 0)
    (hNone : ¬ ∃ a ∈ p.visited t, c = .text a.path.text ∧ Confirmed t p.volume before walk a) :
    after.rowOf? c = (before.rowOf? c).filter fun r =>
      !(r.hasText .volumeName p.volume && Table.isUnder p.root r) := by
  have hMiddle := h.rowOf?_of_unconfirmed hNone
  rw [h.erases.rows, hMiddle]
  cases hRow : before.rowOf? c with
  | none => rfl
  | some r =>
    rw [hRow] at hMiddle
    obtain ⟨hr, hPath⟩ := Table.mem_of_rowOf?_eq_some hMiddle
    have hErased : r.id ∈ erased sweep ↔ Table.IsOf p.volume p.root r := by
      rw [mem_erased_iff, (h.applied_eq hFailed).2, h.mem_operations_sweep_iff hBefore hRoot hr,
        hPath]
      exact and_iff_left hNone
    rw [← Pass.isSwept_iff hRoot] at hErased
    simp [Option.filter, hErased]

/-- What a pass leaves at a path if it loses nothing. -/
inductive Leaves (t : Tree) (p : Pass) (before after : Table) (c : Cell) : Prop
  | kept {entry : Catalog.Entry} {row : Row} (h : p.standingAt t before c = .kept entry)
      (hBefore : before.rowOf? c = some row) (hVolume : row.cells .volumeName = .text p.volume)
      (hAfter : after.rowOf? c = some row)
  | written {record : Record} {row : Row} (h : p.standingAt t before c = .taken record)
      (hVolume : record.cells .volumeName = .text p.volume) (hAfter : after.rowOf? c = some row)
      (hCells : row.cells = record.cells)
      (hInherits : row.Inherits (before.rowOf? c) before.counter)
  | passed (h : p.standingAt t before c = .passed)
      (hAfter : after.rowOf? c = (before.rowOf? c).filter fun r =>
        !(r.hasText .volumeName p.volume && Table.isUnder p.root r))

theorem Complete.leaves (h : Complete t p before middle after walk sweep half full)
    (hBefore : before.Sound) (hRoot : p.root.IsAbsolute) (hFailed : full.failed = 0) (c : Cell) :
    Leaves t p before after c := by
  rcases Pass.standingAt_cases t p c with ⟨a, ha, rfl, hAt⟩ | ⟨hNone, hAt⟩
  · have hConfirmed := h.confirmed_iff hFailed ha
    cases hStanding : standing t p.volume before a with
    | kept entry =>
      obtain ⟨row, hRow, hMiddle, hVolume, -⟩ := h.middle_of_kept hBefore ha hStanding
      exact .kept ((hAt before).trans hStanding) hRow hVolume
        (h.after_of_confirmed ha (.inl ⟨entry, hStanding⟩) hMiddle)
    | taken record =>
      have hWritten : record ∈ written walk := by
        rw [h.written_eq hFailed]
        exact mem_dueRecords.mpr ⟨a, ha, hStanding⟩
      obtain ⟨row, hMiddle, hCells, hInherits⟩ := row_of_written h.writes hStanding hWritten
      exact .written ((hAt before).trans hStanding) (volumeName_of_taken hStanding)
        (h.after_of_confirmed ha (.inr ⟨record, hWritten, hStanding⟩) hMiddle) hCells hInherits
    | passed =>
      refine .passed ((hAt before).trans hStanding) (h.after_of_unconfirmed hBefore hRoot hFailed ?_)
      rintro ⟨b, hb, hText, hOther⟩
      rw [← h.eq_of_text_eq ha hb (Cell.text.inj hText), hConfirmed] at hOther
      exact hOther hStanding
  · exact .passed (hAt before) (h.after_of_unconfirmed hBefore hRoot hFailed
      fun ⟨a, ha, hText, _⟩ => hNone a ha hText)

/-- A pass that loses nothing leaves at every path what is due there. -/
theorem Leaves.cells_eq (h : Leaves t p before after c) :
    (after.rowOf? c).map (·.cells) = p.cellsDue t before c := by
  rw [Pass.cellsDue]
  cases h with
  | kept h hBefore _ hAfter => rw [h, hAfter, hBefore]
  | written h _ hAfter hCells _ => rw [h, hAfter, Option.map_some, hCells]
  | passed h hAfter => rw [h, hAfter]

theorem Complete.cells_eq (h : Complete t p before middle after walk sweep half full)
    (hBefore : before.Sound) (hRoot : p.root.IsAbsolute) (hFailed : full.failed = 0) (c : Cell) :
    (after.rowOf? c).map (·.cells) = p.cellsDue t before c :=
  (h.leaves hBefore hRoot hFailed c).cells_eq

theorem Complete.row_of_taken (h : Complete t p before middle after walk sweep half full)
    (hTree : t.WellFormed) (hBefore : before.Sound) (hRoot : p.root.IsAbsolute)
    (hFailed : full.failed = 0) {a : Attributes} (ha : a ∈ p.visited t) {record : Record}
    (hTaken : standing t p.volume before a = .taken record) :
    ∃ r, after.rowOf? (.text a.path.text) = some r ∧ r.cells = record.cells := by
  have hCells := h.cells_eq hBefore hRoot hFailed (.text a.path.text)
  rw [Pass.cellsDue, Pass.standingAt_of_mem hTree hRoot ha, hTaken] at hCells
  exact Option.map_eq_some_iff.mp hCells

/-! ## Passes that are clean -/

/-- A pass over a path that returns and loses no batch brings one table to another. -/
inductive CleanRun (t : Tree) (p : Pass) (before after : Table) : Prop
  | intro {path : Path} {told : Bool} {size : Int} {s : Store} (hPath : path.IsProper)
      (hStart : Pass.start t path told size = .ok p) (hs : s.contents = .table before)
      (hReturns : ((p.run t).run s).result.failure = none)
      (hFailed : ((p.run t).run s).result.pass.queue.failed = 0)
      (hAfter : ((p.run t).run s).store.contents = .table after)

theorem CleanRun.leaves (h : CleanRun t p before after) (hTree : t.WellFormed)
    (hBefore : before.Sound) : after.Sound ∧ ∀ c, Leaves t p before after c := by
  obtain ⟨hPath, hStart, hs, hReturns, hFailed, hAfter⟩ := h
  obtain ⟨_, middle, walk, sweep, half, hEnd, -, h⟩ :=
    complete_of_run hTree hPath hBefore hStart hs hReturns
  obtain rfl := Contents.table.inj (hAfter.symm.trans hEnd)
  have hRoot : p.root.IsAbsolute := (Pass.start_eq_ok hStart).2 ▸ hPath.absolute
  exact ⟨h.erases.sound, h.leaves hBefore hRoot hFailed⟩

theorem CleanRun.root (h : CleanRun t p before after) : p.root.IsAbsolute := by
  obtain ⟨hPath, hStart, -, -, -, -⟩ := h
  exact (Pass.start_eq_ok hStart).2 ▸ hPath.absolute

theorem Complete.numbered (h : Complete t p before middle after walk sweep half full) {bound : Nat}
    (hBefore : before.Numbered bound) : after.Numbered (bound + (p.visited t).length) := by
  obtain ⟨submitted, waiting, hDue, -, hWritten⟩ := h.walked.split
  have hLength : (written walk).length ≤ (p.visited t).length := by
    calc (written walk).length
        ≤ submitted.length := hWritten.length_le
      _ ≤ (dueRecords t p.volume before (p.visited t)).length := by simp [hDue]
      _ ≤ (p.visited t).length := List.length_filterMap_le _ _
  have hMiddle := h.erases.numbered (h.writes.numbered hBefore)
  exact ⟨hMiddle.positive, hMiddle.started, Int.le_trans hMiddle.bounded (by omega)⟩

/-- Over a healthy store a pass that meets no interrupt is clean if all that it can take in can be
stored, and it counts on by no more than it visits. -/
theorem clean_of_healthy {path : Path} {told : Bool} {size : Int} {s : Store} {bound : Nat}
    (hTree : t.WellFormed) (hPath : path.IsProper) (hBefore : before.Sound)
    (hStart : Pass.start t path told size = .ok p) (hs : s.contents = .table before)
    (hHealthy : s.Healthy) (hQuiet : p.IsQuiet t)
    (hStorable : ∀ a ∈ p.visited t, ∀ record, Media.recordOf? t a p.volume = some record →
      Media.IsStorable record)
    (hNumbered : before.Numbered bound) (hBound : bound < 0x8000000000000000) :
    ((p.run t).run s).result.failure = none ∧
      ((p.run t).run s).result.pass.queue.failed = 0 ∧
      ∃ after, ((p.run t).run s).store.contents = .table after ∧ after.Sound ∧
        after.Numbered (bound + (p.visited t).length) := by
  have hRows := hNumbered.fitsWord hBefore hBound
  have hDue := storable_of_records hStorable before
  have hReturns := returns_of_answers hTree hPath hBefore hStart hs hHealthy.toAnswers hQuiet hDue
    hRows
  obtain ⟨after, middle, walk, sweep, half, hAfter, -, h⟩ :=
    complete_of_run hTree hPath hBefore hStart hs hReturns
  exact ⟨hReturns, failed_eq_zero_of_healthy hTree hPath hBefore hStart hs hHealthy hQuiet hDue
    hRows, after, hAfter, h.erases.sound, h.numbered hNumbered⟩

theorem cleanRun_of_healthy {path : Path} {told : Bool} {size : Int} {bound : Nat}
    (hTree : t.WellFormed) (hPath : path.IsProper) (hBefore : before.Sound)
    (hStart : Pass.start t path told size = .ok p) (hQuiet : p.IsQuiet t)
    (hStorable : ∀ a ∈ p.visited t, ∀ record, Media.recordOf? t a p.volume = some record →
      Media.IsStorable record)
    (hNumbered : before.Numbered bound) (hBound : bound < 0x8000000000000000) :
    ∃ after, CleanRun t p before after ∧ after.Sound ∧
      after.Numbered (bound + (p.visited t).length) := by
  have hHealthy : (Store.ofTable before 0).Healthy := ⟨⟨rfl, rfl, rfl⟩, rfl, rfl⟩
  obtain ⟨hReturns, hFailed, after, hAfter, hSound, hMore⟩ := clean_of_healthy hTree hPath hBefore
    hStart rfl hHealthy hQuiet hStorable hNumbered hBound
  exact ⟨after, .intro hPath hStart rfl hReturns hFailed hAfter, hSound, hMore⟩

end MediaIndex.Reconcile
