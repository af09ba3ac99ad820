import MediaIndex.Proofs.SweepSchedule
import MediaIndex.Reconcile.Scan

/-!
# The life of a pass

A pass runs once. In a block that closes it on the way out it ends closed with nothing waiting,
whether the block is left by a failure or at its end: every run that is not stopped leaves nothing
waiting, so there is nothing to object to when it is closed. What a stopped run leaves in the
catalog are the effects of the batches it submitted up to there.
-/

namespace MediaIndex.Reconcile

open Catalog (Store Table)
open Disk (Tree)

namespace Pass

variable {t : Tree} {p : Pass}

theorem close_of_pending (h : p.queue.pending = []) :
    p.close = ({ p with phase := .closed }, none) := by
  rw [close, h]
  rfl

theorem run_of_phase (h : p.phase ≠ .notStarted) :
    p.run t = stopped p (.alreadyRan p.root) := if_pos h

/-- A run that is not stopped leaves nothing waiting, and one that is refused leaves the pass as it
was. -/
theorem accounts_run (hPending : p.queue.pending = []) : (p.run t).Accounts fun _ _ progress =>
    (progress.failure = none ∨ ∃ root, progress.failure = some (.alreadyRan root)) →
      progress.pass.queue.pending = [] := by
  intro s h
  by_cases hNew : p.phase = .notStarted
  · have hOver := (halts_run t hNew).result s
    rcases h with hGoing | ⟨root, hRefused⟩
    · exact (hOver.swept hGoing).2
    · exact absurd hRefused (hOver.accepted root)
  · rw [run_of_phase hNew]
    exact hPending

/-! ## Blocks -/

/-- What the body of a block does. -/
inductive Use where
  | run (t : Tree)
  /-- The body goes on if the pass already ran. -/
  | attempt (t : Tree)
  /-- Something other than the pass fails. -/
  | fail (failure : Failure)

/-- A pass in a block that closes it at its end. A failure leaves the block, and the pass is given
up. -/
def within : List Use → Pass → Dialogue Progress
  | [], p => .finish ⟨p.close.1, p.close.2⟩
  | .run t :: uses, p => (p.run t).andThen fun progress => match progress.failure with
    | none => within uses progress.pass
    | some failure => .finish ⟨progress.pass.abandon, some failure⟩
  | .attempt t :: uses, p => (p.run t).andThen fun progress => match progress.failure with
    | none => within uses progress.pass
    | some (.alreadyRan _) => within uses progress.pass
    | some failure => .finish ⟨progress.pass.abandon, some failure⟩
  | .fail failure :: _, p => .finish ⟨p.abandon, some failure⟩

theorem complete_eq_within (t : Tree) (p : Pass) : p.complete t = within [.run t] p := by
  rw [complete, within]
  congr 1
  funext ⟨pass, failure⟩
  cases failure <;> rfl

/-- The pass is closed and nothing waits. -/
structure IsDone (p : Pass) : Prop where
  phase : p.phase = .closed
  pending : p.queue.pending = []

theorem isDone_abandon (p : Pass) : p.abandon.IsDone := ⟨rfl, rfl⟩

theorem isDone_close (h : p.queue.pending = []) : p.close.1.IsDone := by
  rw [close_of_pending h]
  exact ⟨rfl, h⟩

theorem accounts_within (uses : List Use) (hPending : p.queue.pending = []) :
    (within uses p).Accounts fun _ _ progress => progress.pass.IsDone := by
  -- Nothing waits where the body goes on: that is what the end of the block relies on.
  induction uses generalizing p with
  | nil => exact Dialogue.accounts_finish (isDone_close hPending)
  | cons use uses ih =>
    cases use with
    | fail failure => exact Dialogue.accounts_finish (isDone_abandon p)
    | run t =>
      refine Dialogue.accounts_andThen ((accounts_run hPending).mono ?_)
      rintro calls notes ⟨p', failure⟩ hRests
      cases failure with
      | none => exact ih (hRests (.inl rfl))
      | some stop => exact Dialogue.accounts_finish (isDone_abandon p')
    | attempt t =>
      refine Dialogue.accounts_andThen ((accounts_run hPending).mono ?_)
      rintro calls notes ⟨p', failure⟩ hRests
      cases failure with
      | none => exact ih (hRests (.inl rfl))
      | some stop =>
        cases stop with
        | alreadyRan root => exact ih (hRests (.inr ⟨root, rfl⟩))
        | _ => exact Dialogue.accounts_finish (isDone_abandon p')

end Pass

section

variable {t : Tree} {p : Pass} {before : Table} {path : Path} {told : Bool} {size : Int}

/-- Wherever a pass is stopped, the table is the one before it with the effects of the batches that
it submitted up to there, and these are the first of those that it submits if every query is
answered. The call that stopped it is the last. It submits deletions only after its walk has
submitted all that is due and the catalog was asked for the rows below the root, so that a pass
stopped before its sweep or by that question has deleted nothing. In a block that closes it, it ends
closed with nothing waiting. Closing it after a run that was not stopped does not fail, and then it
does not run again, nor does one that is closed. -/
theorem crash_consistent (hTree : t.WellFormed) (hPath : path.IsProper) (hBefore : before.Sound)
    (hStart : Pass.start t path told size = .ok p) {s : Store} (hs : s.contents = .table before) :
    let calls := (p.run t).calls s
    let run := (p.run t).run s
    (∃ after, run.store.contents = .table after ∧
      Replays s.clock before (batches calls) after ∧
      batches calls <+: batches ((p.run t).calls s.mended) ∧
      (∀ earlier call later, calls = earlier ++ call :: later → call.isFatal = true → later = []) ∧
      (∃ walk sweep, calls = walk ++ sweep ∧
        (∀ op ∈ operations walk, ∃ record, op = .upsert record) ∧
        (∀ op ∈ operations sweep, ∃ id, op = .delete id) ∧
        (sweep ≠ [] →
          operations walk = (dueRecords t p.volume before (p.visited t)).map .upsert ∧
          ∃ reply rest, sweep = .idsUnder p.volume p.root reply :: rest)) ∧
      ((run.result.pass.phase ≠ .sweeping ∨
          ∃ root cause, run.result.failure = some (.cleanup root cause)) →
        (∀ id, .delete id ∉ operations calls) ∧ ∀ row ∈ before.rows, ∃ row' ∈ after.rows,
          row'.id = row.id ∧ row'.cells .path = row.cells .path)) ∧
    ∀ (t' : Tree) (s' : Store),
      (∀ uses, ((Pass.within uses p).run s').result.pass.phase = .closed ∧
        ((Pass.within uses p).run s').result.pass.queue.pending = []) ∧
      (((p.run t').run s').result.failure = none →
        ((p.run t').run s').result.pass.close.2 = none) ∧
      ∀ old : Pass, old.phase = .closed ∨
          old = ((p.run t').run s').result.pass ∧ ((p.run t').run s').result.failure = none →
        ∀ (tree : Tree) (store : Store), (old.run tree).calls store = [] ∧
          (old.run tree).run store = ⟨⟨old, some (.alreadyRan old.root)⟩, [], store⟩ := by
  intro calls run
  obtain ⟨hNew, -⟩ := Pass.start_eq_ok hStart
  have hHalts := Pass.halts_run t hNew.phase
  have hPending : p.queue.pending = [] := by
    rw [hNew.queue]
    rfl
  refine ⟨?_, fun t' s' => ⟨fun uses => ?_, fun hReturns => ?_, ?_⟩⟩
  · obtain ⟨after, hAfter, hReplays⟩ := replays_run (p.run t) hs hBefore
    obtain ⟨after', middle, walk, sweep, hAfter', hCalls, hSchedule⟩ :=
      scheduled_run hTree hPath hBefore hStart hs
    obtain rfl := Catalog.Contents.table.inj (hAfter.symm.trans hAfter')
    refine ⟨after, hAfter, hReplays, (hHalts.cutOff s).batches_isPrefix,
      fun earlier call later hSplit => hHalts.last hSplit, ?_, ?_⟩
    · refine ⟨walk, sweep, hCalls, fun op hOp => ?_, fun op hOp => ?_, fun hSwept => ?_⟩
      · obtain ⟨record, -, hUpsert⟩ := hSchedule.upserts op hOp
        exact ⟨record, hUpsert⟩
      · obtain ⟨row, -, hDelete, -⟩ := hSchedule.deletes op hOp
        exact ⟨row.id, hDelete⟩
      · exact ⟨hSchedule.walked hSwept, hSchedule.asked hSwept⟩
    · intro hStopped
      have hKept := hSchedule.kept hBefore (hSchedule.operations_sweep_eq_nil hStopped)
      rwa [← hCalls] at hKept
  · obtain ⟨hPhase, hNothing⟩ := Pass.accounts_within uses hPending s'
    exact ⟨hPhase, hNothing⟩
  · have hOver := (Pass.halts_run t' hNew.phase).result s'
    rw [Pass.close_of_pending (hOver.swept hReturns).2]
  · rintro old hOld tree store
    have hPhase : old.phase ≠ .notStarted := by
      rcases hOld with hClosed | ⟨rfl, hReturns⟩
      · rw [hClosed]
        exact Phase.noConfusion
      · rw [(((Pass.halts_run t' hNew.phase).result s').swept hReturns).1]
        exact Phase.noConfusion
    rw [Pass.run_of_phase hPhase]
    exact ⟨rfl, rfl⟩

/-- The third query fails, which asks for the rows below the root. -/
def unansweredStore : Store := { Store.ofTable outdatedTable 0 with failingQueries := [2] }

theorem unansweredStore_stops :
    ((playlistPass.run playlistTree).run unansweredStore).result.failure =
      some (.cleanup ⟨.root, ["m"]⟩ (.range ⟨.root, ["m"]⟩ .ioError)) := by
  rw [Pass.run_of_walk rfl (by cbv) playlist_walk]
  decide +kernel

theorem crash_consistent_playlist :
    (∃ after, ((playlistPass.run playlistTree).run unansweredStore).store.contents = .table after ∧
      ∀ row ∈ outdatedTable.rows, ∃ row' ∈ after.rows,
        row'.id = row.id ∧ row'.cells .path = row.cells .path) ∧
    ((playlistPass.complete playlistTree).run unansweredStore).result.pass.phase = .closed := by
  obtain ⟨⟨after, hAfter, -, -, -, -, hKept⟩, hLater⟩ := crash_consistent playlistTree_wellFormed
    playlist_isProper outdatedTable_sound playlist_start (rfl : unansweredStore.contents = _)
  constructor
  · exact ⟨after, hAfter, (hKept (.inr ⟨_, _, unansweredStore_stops⟩)).2⟩
  · rw [Pass.complete_eq_within]
    exact ((hLater playlistTree unansweredStore).1 [.run playlistTree]).1

end

end MediaIndex.Reconcile
