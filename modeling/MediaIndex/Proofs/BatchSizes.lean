import MediaIndex.Proofs.BatchedCourse
import MediaIndex.Proofs.PassRequests

/-!
# Passes with queues of different sizes

How much a pass submits at once is told by the size of its queue. Beyond that the size does not
show: the pass ends as one that does every operation at once, with the same table but for the dates.
-/

namespace MediaIndex.Reconcile

open Catalog (Operation Store StoreFault Table)
open Disk (Tree)

variable {t : Tree} {path : Path} {told : Bool} {m n : Int} {p p' : Pass} {s : Store}
  {before : Table}

theorem Pass.start_resized (hStart : Pass.start t path told m = .ok p)
    (hStart' : Pass.start t path told n = .ok p') : p' = { p with queue := .ofSize n } := by
  obtain ⟨volume, hVolume, hPass⟩ := bind_eq_ok_iff.mp hStart
  obtain ⟨volume', hVolume', hPass'⟩ := bind_eq_ok_iff.mp hStart'
  rw [hVolume] at hVolume'
  rw [← Except.ok.inj hPass, ← Except.ok.inj hPass', Except.ok.inj hVolume']

theorem course_of_run (hTree : t.WellFormed) (hPath : path.IsProper) (hBefore : before.Sound)
    (hStart : Pass.start t path told m = .ok p) (hs : s.contents = .table before)
    (hFine : NoneFails ((p.run t).calls s)) :
    ∃ after, ((p.run t).run s).store.contents = .table after ∧
      ((p.run t).run s).result.course after =
        (p.course before).run t s.queryFault? (p.isHidden t) ∧
      (((p.run t).run s).result.pass.phase ≠ .walking →
        ((p.run t).run s).result.pass.queue.pending = []) := by
  obtain ⟨hNew, hRoot⟩ := Pass.start_eq_ok hStart
  obtain ⟨after, hAfter, hRuns⟩ := Pass.ensures_run hs hNew.phase
  obtain ⟨hCourse, hEmpty⟩ := Pass.course_of_runs hTree (hRoot ▸ hPath.absolute) hNew hBefore hRuns
    hFine (meets_calls (p.run t) hs)
  exact ⟨after, hAfter, hCourse, hEmpty⟩

theorem Pass.immediate_resized (hStart : Pass.start t path told m = .ok p)
    (hStart' : Pass.start t path told n = .ok p') (now : Table) :
    p'.course now = p.course now ∧ p'.isHidden t = p.isHidden t := by
  obtain ⟨hNew, -⟩ := start_eq_ok hStart
  rw [start_resized hStart hStart', course, course, stored, stored, hNew.queue]
  exact ⟨rfl, rfl⟩

/-- A pass with room for nothing submits every operation by itself, and leaves none waiting. -/
theorem single_of_run (hStart : Pass.start t path told 0 = .ok p) (s : Store) :
    (∀ ops reply, .submit ops reply ∈ (p.run t).calls s → ∃ op, ops = [op]) ∧
      ((p.run t).run s).result.pass.queue.pending = [] := by
  obtain ⟨hNew, -⟩ := Pass.start_eq_ok hStart
  obtain ⟨requests, hServed, hRoom⟩ := Pass.served_of_run (Int.le_refl 0) hNew t s
  refine ⟨fun ops reply hCall => ?_, ?_⟩
  · obtain ⟨ops', reply', hSame, hSome, hFew⟩ := hServed.batches _ (mem_batches.mpr hCall)
    obtain ⟨rfl, -⟩ := Call.submit.inj hSame
    exact List.length_eq_one_iff.mp (by omega)
  · exact List.length_eq_zero_iff.mp (by omega)

/-- Passes over a path whose queues have any two sizes, over one store and with no batch that fails,
end in the same way and with the same counts: as a pass that does every operation at once, but for
what still waits. Nothing waits unless a walk was stopped, so that otherwise they leave the same
table but for the dates, the same scanned numbers and the same first one. A pass with room for
nothing is one that does every operation at once. -/
theorem batches_do_not_show (hTree : t.WellFormed) (hPath : path.IsProper) (hBefore : before.Sound)
    (hStart : Pass.start t path told m = .ok p) (hStart' : Pass.start t path told n = .ok p')
    (hs : s.contents = .table before) (hFine : NoneFails ((p.run t).calls s))
    (hFine' : NoneFails ((p'.run t).calls s)) :
    let first := (p.run t).run s
    let second := (p'.run t).run s
    let immediate := (p.course before).run t s.queryFault? (p.isHidden t)
    ∃ after after', first.store.contents = .table after ∧ second.store.contents = .table after' ∧
      first.result.course after = immediate ∧ second.result.course after' = immediate ∧
      second.result.failure = first.result.failure ∧
      second.result.pass.tally = first.result.pass.tally ∧
      (first.result.failure = none → first.result.pass.phase = .sweeping) ∧
      (first.result.pass.phase ≠ .walking → after'.undated = after.undated ∧
        (∀ id, id ∈ second.result.pass.queue.scanned ↔ id ∈ first.result.pass.queue.scanned) ∧
        second.result.pass.queue.first = first.result.pass.queue.first) ∧
      (m = 0 → after.undated = immediate.course.table ∧
        ∀ ops reply, .submit ops reply ∈ (p.run t).calls s → ∃ op, ops = [op]) := by
  intro first second immediate
  obtain ⟨after, hAfter, hCourse, hEmpty⟩ := course_of_run hTree hPath hBefore hStart hs hFine
  obtain ⟨after', hAfter', hCourse', hEmpty'⟩ := course_of_run hTree hPath hBefore hStart' hs hFine'
  obtain ⟨hSameStart, hSameHidden⟩ := Pass.immediate_resized hStart hStart' before
  rw [hSameStart, hSameHidden] at hCourse'
  obtain ⟨-, -, -, hPhase, hTally⟩ := first.result.pass.setting_course after
  obtain ⟨-, -, -, hPhase', hTally'⟩ := second.result.pass.setting_course after'
  have hSame : second.result.pass.course after' = first.result.pass.course after :=
    congrArg Course.Progress.course (hCourse'.trans hCourse.symm)
  refine ⟨after, after', hAfter, hAfter', hCourse, hCourse',
    congrArg Course.Progress.failure (hCourse'.trans hCourse.symm), ?_, ?_, ?_, ?_⟩
  · rw [← hTally, ← hTally', hSame]
  · intro hReturns
    have hNone : immediate.failure = none :=
      (congrArg Course.Progress.failure hCourse).symm.trans hReturns
    rw [← hPhase, ← Course.phase_run_of_none t s.queryFault? hNone]
    exact congrArg (·.course.phase) hCourse
  · intro hWalked
    have hWalked' : second.result.pass.phase ≠ .walking := by
      rwa [← hPhase', hSame, hPhase]
    exact Pass.same_of_course_eq (hEmpty hWalked) (hEmpty' hWalked') hSame
  · rintro rfl
    obtain ⟨hSingle, hNone⟩ := single_of_run hStart s
    have hStored : first.result.pass.stored after = immediate.course :=
      (Pass.course_of_pending_nil hNone).symm.trans (congrArg Course.Progress.course hCourse)
    exact ⟨congrArg Course.table hStored, hSingle⟩

/-! ## A playlist, with room for nothing and with room for all -/

def promptPass : Pass := { playlistPass with queue := .ofSize 0 }

theorem promptPass_start : Pass.start playlistTree ⟨.root, ["m"]⟩ false 0 = .ok promptPass := by cbv

theorem promptPass_reports : promptPass.Reports playlistTree
    [.visit playlistDirectory, .visit playlistFile, .leave ⟨.root, ["m"]⟩] :=
  ⟨by cbv, playlist_walk, by decide +kernel⟩

theorem batches_do_not_show_playlist :
    let s := Store.ofTable outdatedTable 0
    ∃ after after', ((promptPass.run playlistTree).run s).store.contents = .table after ∧
      ((playlistPass.run playlistTree).run s).store.contents = .table after' ∧
      after'.undated = after.undated ∧
      ((playlistPass.run playlistTree).run s).result.pass.queue.first =
        ((promptPass.run playlistTree).run s).result.pass.queue.first := by
  intro s
  have hHealthy : s.Healthy := ⟨⟨rfl, rfl, rfl⟩, rfl, rfl⟩
  have hDue := storable_of_records promptPass_reports.storable outdatedTable
  have hPrompt : NoneFails ((promptPass.run playlistTree).calls s) :=
    noneFails_of_healthy playlistTree_wellFormed playlist_isProper outdatedTable_sound
      promptPass_start rfl hHealthy hDue outdatedTable_fits
  have hPlain : NoneFails ((playlistPass.run playlistTree).calls s) :=
    noneFails_of_healthy playlistTree_wellFormed playlist_isProper outdatedTable_sound
      playlist_start rfl hHealthy (storable_of_records playlist_reports.storable outdatedTable)
      outdatedTable_fits
  have hReturns : ((promptPass.run playlistTree).run s).result.failure = none :=
    returns_of_answers playlistTree_wellFormed playlist_isProper outdatedTable_sound
      promptPass_start rfl hHealthy.toAnswers promptPass_reports.quiet hDue outdatedTable_fits
  obtain ⟨after, after', hAfter, hAfter', -, -, -, -, hPhase, hSame, -⟩ :=
    batches_do_not_show playlistTree_wellFormed playlist_isProper outdatedTable_sound
      promptPass_start playlist_start rfl hPrompt hPlain
  have hWalked : ((promptPass.run playlistTree).run s).result.pass.phase ≠ .walking := by
    rw [hPhase hReturns]
    decide
  obtain ⟨hTable, -, hFirst⟩ := hSame hWalked
  exact ⟨after, after', hAfter, hAfter', hTable, hFirst⟩

/-! ## A walk that is stopped -/

/-- A store that answers the first query and not the second. -/
def haltingStore : Store := { Store.ofTable .empty 0 with failingQueries := [1] }

theorem exists_table_of_counter {contents : Catalog.Contents} {n : Int}
    (h : (match contents with
      | .table now => now.counter == n
      | _ => false) = true) : ∃ now, contents = .table now ∧ now.counter = n := by
  split at h
  · next now => exact ⟨now, rfl, beq_iff_eq.mp h⟩
  · cases h

/-- A walk that the catalog stops leaves what was submitted before, and not what waits. -/
theorem batches_show_in_stopped_walk :
    Pass.start playlistTree ⟨.root, ["m"]⟩ false 0 = .ok promptPass ∧
      Pass.start playlistTree ⟨.root, ["m"]⟩ false 32 = .ok playlistPass ∧
      NoneFails ((promptPass.run playlistTree).calls haltingStore) ∧
      NoneFails ((playlistPass.run playlistTree).calls haltingStore) ∧
      ∃ after after',
        ((promptPass.run playlistTree).run haltingStore).store.contents = .table after ∧
        ((playlistPass.run playlistTree).run haltingStore).store.contents = .table after' ∧
        after'.undated ≠ after.undated := by
  have hPrompt : ∃ now, ((promptPass.run playlistTree).run haltingStore).store.contents =
      .table now ∧ now.counter = 1 := by
    apply exists_table_of_counter
    rw [Pass.run_of_walk rfl promptPass_reports.visible promptPass_reports.walk]
    decide +kernel
  have hPlain : ∃ now, ((playlistPass.run playlistTree).run haltingStore).store.contents =
      .table now ∧ now.counter = 0 := by
    apply exists_table_of_counter
    rw [Pass.run_of_walk rfl playlist_reports.visible playlist_walk]
    decide +kernel
  obtain ⟨after, hAfter, hOne⟩ := hPrompt
  obtain ⟨after', hAfter', hZero⟩ := hPlain
  refine ⟨promptPass_start, playlist_start, ?_, ?_, after, after', hAfter, hAfter', ?_⟩
  · rw [Pass.run_of_walk rfl promptPass_reports.visible promptPass_reports.walk, NoneFails]
    decide +kernel
  · rw [Pass.run_of_walk rfl playlist_reports.visible playlist_walk, NoneFails]
    decide +kernel
  · intro hSame
    have hCounter : after'.undated.counter = after.undated.counter := congrArg Table.counter hSame
    rw [Table.undated, Table.undated, hZero, hOne] at hCounter
    cases hCounter

end MediaIndex.Reconcile
