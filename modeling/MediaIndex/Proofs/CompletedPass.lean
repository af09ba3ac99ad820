import MediaIndex.Proofs.FatalCalls
import MediaIndex.Proofs.PassLedger

/-!
# Passes that ran to their end

A pass that nothing stopped has walked and swept: the ledger of the walk covers all that it visits,
and the ledger of the sweep all rows of the volume at or below the root that do not count as
scanned.
-/

namespace MediaIndex.Reconcile

open Catalog (Cell Operation Record Row Store Table)
open Disk (Attributes Tree)

variable {t : Tree} {p : Pass} {before middle after : Table} {walk sweep : List Call}
  {half full : Queue}

/-- What a pass did that ran to its end, from a table before it over one after the walk to one at
the end. -/
structure Complete (t : Tree) (p : Pass) (before middle after : Table) (walk sweep : List Call)
    (half full : Queue) : Prop extends Ran t p before middle after walk sweep where
  walked : Walked t p.volume before (p.visited t) walk half middle
  flushed : half.pending = []
  swept : Swept middle ((middle.idsUnder p.volume p.root).filter (· ∉ half.scanned)) half sweep full
    after
  done : full.pending = []
  settled : ∀ call ∈ walk ++ sweep, call.isBatch = true →
    call.isApplied = true ∨ call.isLost = true

theorem Walked.ran_of_sweeps (hBefore : before.Sound) (hRoot : p.root.IsAbsolute) {p' : Pass}
    (hContinues : p.Continues p')
    (hWalked : Walked t p.volume before (p.visited t) walk p'.queue middle)
    (hFlushed : p'.queue.pending = []) {progress : Pass.Progress}
    (h : Pass.Finishes p' middle sweep progress after)
    (hSettled : progress.failure = none → ∀ call ∈ walk ++ sweep, call.isBatch = true →
      call.isApplied = true ∨ call.isLost = true) :
    Ran t p before middle after walk sweep ∧ (progress.failure = none →
      Complete t p before middle after walk sweep p'.queue progress.pass.queue) := by
  obtain ⟨⟨stray, hStray, hSwept, hAll⟩, hDone⟩ :=
    sweeping_of_sweeps h hWalked.writes.sound hFlushed
  rw [List.nil_append] at hSwept
  have hSame : (middle.idsUnder p'.volume p'.root) = middle.idsUnder p.volume p.root := by
    rw [hContinues.volume, hContinues.root]
  have hRan := hSwept.ran hBefore hRoot hWalked (hSame ▸ hStray)
  refine ⟨hRan, fun hGoing => ⟨hRan, hWalked, hFlushed, ?_, hDone hGoing, hSettled hGoing⟩⟩
  rw [← hSame, ← hAll hGoing]
  exact hSwept

theorem ran_of_runs {size : Int} (hTree : t.WellFormed) (hBefore : before.Sound)
    (hNew : p.IsNew size) (hRoot : p.root.IsAbsolute) {calls : List Call} {progress : Pass.Progress}
    (h : Pass.Runs t p before calls progress after) :
    ∃ walk sweep middle half, calls = walk ++ sweep ∧ Ran t p before middle after walk sweep ∧
      (progress.failure = none →
        Complete t p before middle after walk sweep half progress.pass.queue) := by
  have hDistinct := Pass.nodup_visited_texts hTree hRoot
  have hNil : Walked t p.volume before [] [] p.queue before := by
    rw [hNew.queue]
    exact walked_nil hBefore p.volume size
  have hSettled : progress.failure = none → ∀ call ∈ calls, call.isBatch = true →
      call.isApplied = true ∨ call.isLost = true := fun hGoing call hCall =>
    Call.applied_or_lost (Pass.runs_isHarmless t h hGoing call hCall)
  cases h with
  | unseen hFault =>
    exact ⟨[], [], before, p.queue, rfl, hNil.ran hDistinct List.nil_prefix,
      fun hGoing => by cases hGoing⟩
  | hidden hHidden hFinishes =>
    have hVisited : p.visited t = [] := by rw [Pass.visited, hHidden]
    have hPending : p.queue.pending = [] := by
      rw [hNew.queue]
      rfl
    have hBoth := Walked.ran_of_sweeps hBefore hRoot (.refl p) (hVisited ▸ hNil) hPending hFinishes
      hSettled
    exact ⟨[], _, before, p.queue, rfl, hBoth⟩
  | walked hHidden hRest =>
    have hVisited : p.visited t = Walk.visits t p.root := by rw [Pass.visited, hHidden]
    have hAdvances : ∀ {calls : List Call} {progress : Pass.Progress} {after : Table},
        Pass.Explores t { p with phase := .walking } before calls progress after →
          Advances t p.volume before [] (Walk.visits t p.root) calls progress after ∧
            (progress.failure = none → progress.pass.queue.pending = []) := fun hExplores =>
      advances_of_explores (p := { p with phase := .walking }) hTree hBefore hRoot hNew.queue
        hExplores
    cases hRest with
    | stopped hFirst =>
      obtain ⟨⟨part, hPart, hWalked, -⟩, -⟩ := hAdvances hFirst
      exact ⟨_, [], _, p.queue, (List.append_nil _).symm,
        hWalked.ran hDistinct (hVisited ▸ hPart), fun hGoing => by cases hGoing⟩
    | @going _ p' _ between _ walk sweep _ hFirst hRest =>
      obtain ⟨⟨part, -, hWalked, hAll⟩, hFlushed⟩ := hAdvances hFirst
      obtain rfl := hAll rfl
      rw [← hVisited] at hWalked
      have hContinues : p.Continues p' := ⟨hFirst.continues.root, hFirst.continues.volume⟩
      have hBoth := Walked.ran_of_sweeps hBefore hRoot hContinues hWalked (hFlushed rfl) hRest
        hSettled
      exact ⟨walk, sweep, between, p'.queue, rfl, hBoth⟩

section

variable {path : Path} {told : Bool} {size : Int} {s : Store}

/-- Whatever becomes of a pass that was started on a path, it has a ledger. -/
theorem ran_of_run (hTree : t.WellFormed) (hPath : path.IsProper) (hBefore : before.Sound)
    (hStart : Pass.start t path told size = .ok p) (hs : s.contents = .table before) :
    ∃ after middle walk sweep half, ((p.run t).run s).store.contents = .table after ∧
      (p.run t).calls s = walk ++ sweep ∧ Ran t p before middle after walk sweep ∧
      (((p.run t).run s).result.failure = none →
        Complete t p before middle after walk sweep half ((p.run t).run s).result.pass.queue) := by
  obtain ⟨hNew, hRoot⟩ := Pass.start_eq_ok hStart
  obtain ⟨after, hAfter, hRuns⟩ := Pass.ensures_run (t := t) hs hNew.phase
  obtain ⟨walk, sweep, middle, half, hCalls, hBoth⟩ :=
    ran_of_runs hTree hBefore hNew (hRoot ▸ hPath.absolute) hRuns
  exact ⟨after, middle, walk, sweep, half, hAfter, hCalls, hBoth⟩

theorem complete_of_run (hTree : t.WellFormed) (hPath : path.IsProper) (hBefore : before.Sound)
    (hStart : Pass.start t path told size = .ok p) (hs : s.contents = .table before)
    (hReturns : ((p.run t).run s).result.failure = none) :
    ∃ after middle walk sweep half, ((p.run t).run s).store.contents = .table after ∧
      (p.run t).calls s = walk ++ sweep ∧
      Complete t p before middle after walk sweep half ((p.run t).run s).result.pass.queue := by
  obtain ⟨after, middle, walk, sweep, half, hAfter, hCalls, -, hComplete⟩ :=
    ran_of_run hTree hPath hBefore hStart hs
  exact ⟨after, middle, walk, sweep, half, hAfter, hCalls, hComplete hReturns⟩

end

section

variable (h : Complete t p before middle after walk sweep half full)

include h

theorem Complete.operations_sweep :
    operations sweep =
      ((middle.idsUnder p.volume p.root).filter (· ∉ half.scanned)).map .delete := by
  have hQueued := h.swept.queued
  rw [h.done, List.append_nil] at hQueued
  exact hQueued

theorem Complete.mem_operations_sweep_iff (hBefore : before.Sound) (hRoot : p.root.IsAbsolute)
    {r : Row} (hr : r ∈ middle.rows) :
    Operation.delete r.id ∈ operations sweep ↔ Table.IsOf p.volume p.root r ∧
      ¬ ∃ a ∈ p.visited t, r.cells .path = .text a.path.text ∧
        Confirmed t p.volume before walk a := by
  rw [h.operations_sweep, ← h.walked.stray_iff hBefore hRoot hr]
  constructor
  · intro hDelete
    obtain ⟨id, hId, hEq⟩ := List.mem_map.mp hDelete
    exact Operation.delete.inj hEq ▸ hId
  · exact List.mem_map_of_mem

theorem Complete.delete_mem_sweep_iff (hBefore : before.Sound) (hRoot : p.root.IsAbsolute)
    {id : Int} : Operation.delete id ∈ operations sweep ↔ ∃ row ∈ before.rows, row.id = id ∧
      Table.IsOf p.volume p.root row ∧ ¬ ∃ a ∈ p.visited t,
        row.cells .path = .text a.path.text ∧ Confirmed t p.volume before walk a := by
  constructor
  · intro hDelete
    obtain ⟨row, hRow, hEq, hIsOf, hNone⟩ := h.deletes _ hDelete
    exact ⟨row, h.mem_before_of_unconfirmed hRow hNone, (Operation.delete.inj hEq).symm, hIsOf,
      hNone⟩
  · rintro ⟨row, hRow, rfl, hIsOf, hNone⟩
    have hMiddle := h.mem_middle_of_unconfirmed hBefore hRow hNone
    exact (h.mem_operations_sweep_iff hBefore hRoot hMiddle).mpr ⟨hIsOf, hNone⟩

/-! ## Passes without a failed batch -/

theorem Complete.filter_isLost (hFailed : full.failed = 0) :
    (walk ++ sweep).filter (·.isLost) = [] := by
  rw [← List.length_eq_zero_iff, List.filter_append, List.length_append, ← h.walked.failed,
    ← h.swept.failed, hFailed]

theorem Complete.applied_eq (hFailed : full.failed = 0) :
    applied walk = operations walk ∧ applied sweep = operations sweep := by
  have hLost := List.filter_eq_nil_iff.mp (h.filter_isLost hFailed)
  have hAll : ∀ call ∈ walk ++ sweep, call.isBatch = true → call.isApplied = true := by
    intro call hCall hBatch
    exact (h.settled call hCall hBatch).resolve_right (hLost call hCall)
  exact ⟨applied_eq_operations fun call hCall => hAll call (List.mem_append_left _ hCall),
    applied_eq_operations fun call hCall => hAll call (List.mem_append_right _ hCall)⟩

theorem Complete.written_eq (hFailed : full.failed = 0) :
    written walk = dueRecords t p.volume before (p.visited t) := by
  have hQueued := h.walked.queued
  rw [h.flushed, List.append_nil] at hQueued
  rw [written, (h.applied_eq hFailed).1, hQueued, filterMap_record?_upsert]

end

end MediaIndex.Reconcile
