import MediaIndex.Proofs.CleanPass
import MediaIndex.Proofs.LostBatches

/-!
# A clean pass repairs what earlier ones have spoilt

A pass that loses batches or is stopped does at each path what is due there, or nothing, or it takes
away a row that a clean pass would replace or delete. So what a clean pass would leave at a path
stays the same whatever becomes of the passes before it, and after any history of passes over its
path it ends with the same rows as it would without them, but for their numbers and dates.
-/

namespace MediaIndex.Reconcile

open Catalog (Cell Column Operation Record Row Store Table)
open Disk (Attributes Tree)

variable {t : Tree} {p p' : Pass} {before now later middle after : Table} {walk sweep : List Call}
  {c : Cell}

/-! ## What a pass does at one path -/

/-- What a pass did at a path, whatever became of it. -/
inductive Ran.At (t : Tree) (p : Pass) (before after : Table) (c : Cell) : Prop
  | left (h : after.rowOf? c = before.rowOf? c)
  | written {record : Record} {row : Row} (h : p.standingAt t before c = .taken record)
      (hStorable : Media.IsStorable record) (hRow : after.rowOf? c = some row)
      (hCells : row.cells = record.cells)
  | swept {row : Row} (h : ∀ entry, p.standingAt t before c ≠ .kept entry)
      (hRow : before.rowOf? c = some row) (hIsOf : Table.IsOf p.volume p.root row)
      (hGone : after.rowOf? c = none)

section

variable (h : Ran t p before middle after walk sweep)

include h

/-- A path of no confirmed entry keeps its row, unless the row is one that the sweep may delete. -/
theorem Ran.after_of_unconfirmed (hNone : ¬ ∃ a ∈ p.visited t,
      c = .text a.path.text ∧ Confirmed t p.volume before walk a) :
    after.rowOf? c = before.rowOf? c ∨ ∃ row, before.rowOf? c = some row ∧
      Table.IsOf p.volume p.root row ∧ after.rowOf? c = none := by
  have hMiddle := h.rowOf?_of_unconfirmed hNone
  rw [h.erases.rows, hMiddle]
  cases hRow : before.rowOf? c with
  | none => exact .inl rfl
  | some row =>
    rw [hRow] at hMiddle
    by_cases hErased : row.id ∈ erased sweep
    · obtain ⟨other, hOther, hDelete, hIsOf, -⟩ :=
        h.deletes _ ((applied_sublist sweep).subset (mem_erased_iff.mp hErased))
      have hMem := (Table.mem_of_rowOf?_eq_some hMiddle).1
      obtain rfl := h.writes.sound.eq_of_id_eq hMem hOther (Operation.delete.inj hDelete)
      exact .inr ⟨row, rfl, hIsOf, Option.filter_some_neg (by simpa using hErased)⟩
    · exact .inl (Option.filter_some_pos (by simpa using hErased))

theorem Ran.at (hBefore : before.Sound) (c : Cell) : Ran.At t p before after c := by
  have hUnconfirmed (hNone : ¬ ∃ a ∈ p.visited t,
        c = .text a.path.text ∧ Confirmed t p.volume before walk a)
      (hNotKept : ∀ entry, p.standingAt t before c ≠ .kept entry) : Ran.At t p before after c := by
    rcases h.after_of_unconfirmed hNone with hLeft | ⟨row, hRow, hIsOf, hGone⟩
    · exact .left hLeft
    · exact .swept hNotKept hRow hIsOf hGone
  rcases Pass.standingAt_cases t p c with ⟨a, ha, rfl, hAt⟩ | ⟨hNone, hAt⟩
  · by_cases hConfirmed : Confirmed t p.volume before walk a
    · have hConfirmed' := hConfirmed
      rcases hConfirmed with ⟨entry, hKept⟩ | ⟨record, hRecord, hTaken⟩
      · obtain ⟨row, hRow, hMiddle, -⟩ := h.middle_of_kept hBefore ha hKept
        exact .left ((h.after_of_confirmed ha hConfirmed' hMiddle).trans hRow.symm)
      · obtain ⟨row, hMiddle, hCells, -⟩ := row_of_written h.writes hTaken hRecord
        exact .written ((hAt before).trans hTaken) (h.storable record hRecord)
          (h.after_of_confirmed ha hConfirmed' hMiddle) hCells
    · refine hUnconfirmed ?_ fun entry hKept => hConfirmed (.inl ⟨entry, hAt before ▸ hKept⟩)
      rintro ⟨b, hb, hText, hOther⟩
      exact hConfirmed (h.eq_of_text_eq ha hb (Cell.text.inj hText) ▸ hOther)
  · exact hUnconfirmed (fun ⟨a, ha, hText, _⟩ => hNone a ha hText) (by simp [hAt])

end

/-- Whatever becomes of a pass, what the next one is due to leave at a path stays the same. -/
theorem Ran.cellsDue_eq (h : Ran t p before middle after walk sweep) (hBefore : before.Sound)
    (hRoot : p.root.IsAbsolute) (c : Cell) : p.cellsDue t after c = p.cellsDue t before c := by
  have hAfter := h.erases.sound
  cases h.at hBefore c with
  | left hLeft => exact Pass.cellsDue_congr hBefore hAfter hLeft
  | @written record row hTaken hStorable hRow hCells =>
    -- The row that was written is kept by the next pass.
    rcases Pass.standingAt_cases t p c with ⟨a, -, rfl, hAt⟩ | ⟨-, hAt⟩
    · rw [hAt] at hTaken
      have hKept := kept_of_written hAfter hTaken hStorable hRow hCells
      simp only [Pass.cellsDue, hAt, hTaken, hKept, hRow, Option.map_some, hCells]
    · rw [hAt] at hTaken
      cases hTaken
  | @swept row hNotKept hRow hIsOf hGone =>
    -- The path stands as it did, and its row was not going to stay.
    have hStanding := Pass.standingAt_of_rowOf?_eq_none hAfter hNotKept hGone
    have hSwept := (Pass.isSwept_iff hRoot).mpr hIsOf
    rw [Pass.cellsDue, Pass.cellsDue, hStanding, hGone, hRow]
    cases hCase : p.standingAt t before c with
    | kept entry => exact absurd hCase (hNotKept entry)
    | taken record => rfl
    | passed =>
      simp only [Option.filter_none, Option.map_none]
      rw [Option.filter_some_neg (by simp [hSwept]), Option.map_none]

/-! ## Histories of passes -/

/-- The tables that passes over a path may come to, each over any store that has the table which
the one before it left, and whatever became of each of them. -/
inductive Passes (t : Tree) (path : Path) (before : Table) : Table → Prop
  | none : Passes t path before before
  | more {now after : Table} {told : Bool} {size : Int} {p : Pass} {s : Store}
      (h : Passes t path before now) (hStart : Pass.start t path told size = .ok p)
      (hs : s.contents = .table now)
      (hAfter : ((p.run t).run s).store.contents = .table after) : Passes t path before after

theorem Pass.start_again {path : Path} {told told' : Bool} {size size' : Int}
    (hStart : Pass.start t path told size = .ok p)
    (hAgain : Pass.start t path told' size' = .ok p') :
    p'.root = p.root ∧ p'.volume = p.volume := by
  obtain ⟨volume, hVolume, hPass⟩ := bind_eq_ok_iff.mp hStart
  obtain ⟨volume', hVolume', hPass'⟩ := bind_eq_ok_iff.mp hAgain
  rw [hVolume] at hVolume'
  rw [← Except.ok.inj hPass, ← Except.ok.inj hPass', Except.ok.inj hVolume']
  exact ⟨rfl, rfl⟩

theorem Passes.cellsDue_eq {path : Path} {told : Bool} {size : Int}
    (h : Passes t path before now) (hTree : t.WellFormed) (hPath : path.IsProper)
    (hBefore : before.Sound) (hStart : Pass.start t path told size = .ok p) :
    now.Sound ∧ ∀ c, p.cellsDue t now c = p.cellsDue t before c := by
  induction h with
  | none => exact ⟨hBefore, fun c => rfl⟩
  | more h hAgain hs hAfter ih =>
    obtain ⟨hNow, hDue⟩ := ih
    obtain ⟨hRoot, hVolume⟩ := Pass.start_again hStart hAgain
    obtain ⟨after, middle, walk, sweep, half, hEnd, -, hRan, -⟩ :=
      ran_of_run hTree hPath hNow hAgain hs
    obtain rfl := Catalog.Contents.table.inj (hAfter.symm.trans hEnd)
    refine ⟨hRan.erases.sound, fun c => ?_⟩
    have hAbsolute := (Pass.start_eq_ok hAgain).2 ▸ hPath.absolute
    rw [← hDue, ← Pass.cellsDue_congr_pass hRoot hVolume, hRan.cellsDue_eq hNow hAbsolute,
      Pass.cellsDue_congr_pass hRoot hVolume]

/-- After any passes over a path, whatever became of them, a pass that returns and loses no batch
ends with the rows that such a pass leaves as the first one, but for their numbers and dates. -/
theorem rescan_repairs {path : Path} {told told' : Bool} {size size' : Int} {s s' : Store}
    (hTree : t.WellFormed) (hPath : path.IsProper) (hBefore : before.Sound)
    (hStart : Pass.start t path told size = .ok p) (hs : s.contents = .table before)
    (hReturns : ((p.run t).run s).result.failure = none)
    (hFailed : ((p.run t).run s).result.pass.queue.failed = 0)
    (hPasses : Passes t path before now)
    (hStart' : Pass.start t path told' size' = .ok p') (hs' : s'.contents = .table now)
    (hReturns' : ((p'.run t).run s').result.failure = none)
    (hFailed' : ((p'.run t).run s').result.pass.queue.failed = 0) :
    ∃ after after', ((p.run t).run s).store.contents = .table after ∧
      ((p'.run t).run s').store.contents = .table after' ∧
      (after'.rows.map (·.cells)).Perm (after.rows.map (·.cells)) := by
  obtain ⟨hNow, hDue⟩ := hPasses.cellsDue_eq hTree hPath hBefore hStart'
  obtain ⟨after, middle, walk, sweep, half, hAfter, -, h⟩ :=
    complete_of_run hTree hPath hBefore hStart hs hReturns
  obtain ⟨after', middle', walk', sweep', half', hAfter', -, h'⟩ :=
    complete_of_run hTree hPath hNow hStart' hs' hReturns'
  refine ⟨after, after', hAfter, hAfter', ?_⟩
  refine h.erases.sound.perm_cells h'.erases.sound fun c => ?_
  have hRoot : p.root.IsAbsolute := (Pass.start_eq_ok hStart).2 ▸ hPath.absolute
  have hRoot' : p'.root.IsAbsolute := (Pass.start_eq_ok hStart').2 ▸ hPath.absolute
  obtain ⟨hSameRoot, hSameVolume⟩ := Pass.start_again hStart hStart'
  calc (after'.rowOf? c).map (·.cells)
      = p'.cellsDue t now c := h'.cells_eq hNow hRoot' hFailed' c
    _ = p'.cellsDue t before c := hDue c
    _ = p.cellsDue t before c := Pass.cellsDue_congr_pass hSameRoot hSameVolume
    _ = (after.rowOf? c).map (·.cells) := (h.cells_eq hBefore hRoot hFailed c).symm

/-! ## A lost batch, and the pass after it -/

/-- The store once it is opened anew and nothing is in its way any more. -/
def reopened (s : Store) : Store :=
  { s with
    isOpen := true
    locked := false
    memory := .fresh
    failingBatches := []
    failingQueries := [] }

theorem outdatedStore_loses :
    ∃ call ∈ (playlistPass.run playlistTree).calls outdatedStore, call.isLost = true := by
  rw [Pass.run_of_walk rfl (by cbv) playlist_walk, ← List.any_eq_true]
  decide +kernel

theorem rescan_repairs_playlist :
    let spoilt := (playlistPass.run playlistTree).run outdatedStore
    (∃ call ∈ (playlistPass.run playlistTree).calls outdatedStore, call.isLost = true) ∧
      ∃ after after', ((playlistPass.run playlistTree).run
          (.ofTable outdatedTable 0)).store.contents = .table after ∧
        ((playlistPass.run playlistTree).run (reopened spoilt.store)).store.contents =
          .table after' ∧
        (after'.rows.map (·.cells)).Perm (after.rows.map (·.cells)) := by
  intro spoilt
  have hAnswers : outdatedStore.Answers := ⟨rfl, rfl, rfl⟩
  have hHealthy : (Store.ofTable outdatedTable 0).Healthy := ⟨⟨rfl, rfl, rfl⟩, rfl, rfl⟩
  obtain ⟨now, middle, walk, sweep, half, hNow, -, h⟩ :=
    complete_of_run playlistTree_wellFormed playlist_isProper outdatedTable_sound playlist_start rfl
      (playlist_returns rfl hAnswers)
  have hReopened : (reopened spoilt.store).contents = .table now := hNow
  have hAgain : (reopened spoilt.store).Healthy :=
    ⟨⟨rfl, congrArg Catalog.Contents.isTable hReopened, rfl⟩, rfl, rfl⟩
  have hPasses : Passes playlistTree ⟨.root, ["m"]⟩ outdatedTable now :=
    .more .none playlist_start rfl hNow
  obtain ⟨hReturns, hFailed, -⟩ := clean_of_healthy playlistTree_wellFormed playlist_isProper
    h.erases.sound playlist_start hReopened hAgain playlist_reports.quiet playlist_reports.storable
    (h.numbered outdatedTable_numbered) (by rw [playlist_visited]; decide)
  exact ⟨outdatedStore_loses, rescan_repairs playlistTree_wellFormed playlist_isProper
    outdatedTable_sound playlist_start rfl (playlist_returns rfl hHealthy.toAnswers)
    (playlist_failed rfl hHealthy) hPasses playlist_start hReopened hReturns hFailed⟩

end MediaIndex.Reconcile
