import MediaIndex.Proofs.CompletedPass
import MediaIndex.Proofs.CutRuns

/-!
# What comes before a deletion

A pass asks for the rows below its root once its walk has submitted the last of its records, and
only the answer makes it submit deletions. A pass that is stopped before that, or by that question,
has deleted nothing, and every row of the table is still there.
-/

namespace MediaIndex.Reconcile

open Catalog (Operation Store Table)
open Disk (Tree)

variable {t : Tree} {p : Pass} {before middle after : Table} {walk sweep calls : List Call}
  {progress : Pass.Progress}

/-- What a pass submitted in its walk and in its sweep, and how far it came. -/
structure Schedule (t : Tree) (p : Pass) (before middle after : Table) (walk sweep : List Call)
    (progress : Pass.Progress) : Prop extends Ran t p before middle after walk sweep where
  walked : sweep ≠ [] →
    operations walk = (dueRecords t p.volume before (p.visited t)).map .upsert
  asked : sweep ≠ [] → ∃ reply rest, sweep = .idsUnder p.volume p.root reply :: rest
  phase : progress.pass.phase ≠ .sweeping → sweep = []
  unanswered : (∃ root cause, progress.failure = some (.cleanup root cause)) →
    operations sweep = []

/-! ## Sweeps -/

/-- A sweep whose question is not answered submits nothing. -/
theorem Pass.accounts_sweep_cleanup (p : Pass) : p.sweep.Accounts fun calls _ progress =>
    (∃ root cause, progress.failure = some (.cleanup root cause)) → operations calls = [] := by
  refine Dialogue.accounts_idsUnder fun reply => ?_
  cases reply with
  | error fault => exact Dialogue.accounts_finish fun _ => rfl
  | ok ids =>
    rintro s ⟨root, cause, hFailure⟩
    cases ((halts_cleaned ids p).result s).1.may _ hFailure

theorem Pass.accounts_finish_cleanup (p : Pass) : p.finish.Accounts fun calls _ progress =>
    (∃ root cause, progress.failure = some (.cleanup root cause)) → operations calls = [] := by
  refine Dialogue.accounts_andThen
    ((Pass.accounts_sweep_cleanup { p with phase := .sweeping }).mono ?_)
  rintro calls notes ⟨p', failure⟩ hSweep
  cases failure with
  | none => rintro s ⟨root, cause, ⟨⟩⟩
  | some stop =>
    refine Dialogue.accounts_finish ?_
    rw [List.append_nil]
    exact hSweep

theorem Pass.Sweeps.asked (h : p.Sweeps before calls progress after) :
    ∃ reply rest, calls = .idsUnder p.volume p.root reply :: rest := by
  cases h with
  | unanswered => exact ⟨_, _, rfl⟩
  | answered h => exact ⟨_, _, rfl⟩

theorem Walked.schedule_of_sweeps (hBefore : before.Sound) (hRoot : p.root.IsAbsolute) {p' : Pass}
    (hContinues : p.Continues p')
    (hWalked : Walked t p.volume before (p.visited t) walk p'.queue middle)
    (hFlushed : p'.queue.pending = []) (h : p'.Finishes middle sweep progress after)
    (hPhase : progress.pass.phase = .sweeping)
    (hCleanup : (∃ root cause, progress.failure = some (.cleanup root cause)) →
      operations sweep = []) :
    Schedule t p before middle after walk sweep progress where
  toRan := by
    obtain ⟨⟨stray, hStray, hSwept, -⟩, -⟩ := sweeping_of_sweeps h hWalked.writes.sound hFlushed
    rw [List.nil_append] at hSwept
    refine hSwept.ran hBefore hRoot hWalked ?_
    rw [← hContinues.volume, ← hContinues.root]
    exact hStray
  walked _ := by
    rw [← hWalked.queued, hFlushed, List.append_nil]
  asked _ := by
    rw [← hContinues.volume, ← hContinues.root]
    exact h.asked
  phase hOther := absurd hPhase hOther
  unanswered := hCleanup

theorem Walked.ensures_finish (hBefore : before.Sound) (hRoot : p.root.IsAbsolute) {p' : Pass}
    (hContinues : p.Continues p')
    (hWalked : Walked t p.volume before (p.visited t) walk p'.queue middle)
    (hFlushed : p'.queue.pending = []) {s : Store} (hs : s.contents = .table middle) :
    p'.finish.Ensures s fun sweep progress s' => ∃ after, s'.contents = .table after ∧
      Schedule t p before middle after walk sweep progress := by
  obtain ⟨after, hAfter, hFinishes⟩ := Pass.follows_finish p' s middle hs
  have hPhase := ((Pass.halts_finish p').result s).1.phase
  have hCleanup := Pass.accounts_finish_cleanup p' s
  exact ⟨after, hAfter, hWalked.schedule_of_sweeps hBefore hRoot hContinues hFlushed hFinishes
    hPhase hCleanup⟩

theorem Ran.schedule (h : Ran t p before middle after walk []) :
    Schedule t p before middle after walk [] progress where
  toRan := h
  walked hSweep := absurd rfl hSweep
  asked hSweep := absurd rfl hSweep
  phase _ := rfl
  unanswered _ := rfl

/-! ## What is still there -/

theorem erased_eq_nil (h : operations sweep = []) : erased sweep = [] := by
  have hApplied : applied sweep = [] :=
    List.sublist_nil.mp (h ▸ applied_sublist sweep)
  rw [erased, hApplied]
  rfl

/-- If nothing was to be deleted every row is still there, with its number and at its path. -/
theorem Schedule.kept (h : Schedule t p before middle after walk sweep progress)
    (hBefore : before.Sound) (hNone : operations sweep = []) :
    (∀ id, .delete id ∉ operations (walk ++ sweep)) ∧ ∀ row ∈ before.rows,
      ∃ row' ∈ after.rows, row'.id = row.id ∧ row'.cells .path = row.cells .path := by
  constructor
  · intro id hDelete
    rw [h.delete_mem_operations_iff, hNone] at hDelete
    cases hDelete
  · intro row hRow
    obtain ⟨row', hMiddle, hId, -⟩ := h.writes.row_of_row (hBefore.rowOf?_of_mem hRow)
    have hAfter : after.rowOf? (row.cells .path) = some row' :=
      h.rowOf?_after_iff.mpr ⟨hMiddle, by simp [erased_eq_nil hNone]⟩
    obtain ⟨hMem, hPath⟩ := Table.mem_of_rowOf?_eq_some hAfter
    exact ⟨row', hMem, hId, hPath⟩

/-- A pass that is stopped before its sweep, or by the question of it, submits no deletion. -/
theorem Schedule.operations_sweep_eq_nil (h : Schedule t p before middle after walk sweep progress)
    (hStopped : progress.pass.phase ≠ .sweeping ∨
      ∃ root cause, progress.failure = some (.cleanup root cause)) : operations sweep = [] := by
  rcases hStopped with hPhase | hCleanup
  · rw [h.phase hPhase]
    rfl
  · exact h.unanswered hCleanup

/-! ## Passes -/

section

variable {path : Path} {told : Bool} {size : Int} {s : Store}

/-- The calls that a pass made to a store with a table have a schedule. -/
def Scheduled (t : Tree) (p : Pass) (before : Table) (calls : List Call) (progress : Pass.Progress)
    (s : Store) : Prop :=
  ∃ after middle walk sweep, s.contents = .table after ∧ calls = walk ++ sweep ∧
    Schedule t p before middle after walk sweep progress

theorem scheduled_of_visible (hTree : t.WellFormed) (hBefore : before.Sound) (hNew : p.IsNew size)
    (hRoot : p.root.IsAbsolute) (hVisible : p.isHidden t = .ok false)
    (hs : s.contents = .table before) :
    (Pass.Progress.andThen (Pass.explore t { p with phase := .walking }) Pass.finish).Ensures s
      (Scheduled t p before) := by
  have hVisited : p.visited t = Walk.visits t p.root := by rw [Pass.visited, hVisible]
  refine Dialogue.ensures_andThen.mpr
    ((Pass.follows_explore t { p with phase := .walking } s before hs).mono ?_)
  rintro walk ⟨p', failure⟩ s' ⟨middle, hMiddle, hExplores⟩
  have hAdvances : Advances t p.volume before [] (Walk.visits t p.root) walk ⟨p', failure⟩
      middle ∧ (failure = none → p'.queue.pending = []) :=
    advances_of_explores (p := { p with phase := .walking }) hTree hBefore hRoot hNew.queue
      hExplores
  obtain ⟨⟨part, hPart, hWalked, hAll⟩, hFlushed⟩ := hAdvances
  cases failure with
  | some stop =>
    have hRan := hWalked.ran (Pass.nodup_visited_texts hTree hRoot) (hVisited ▸ hPart)
    exact Dialogue.ensures_finish.mpr ⟨middle, middle, walk, [], hMiddle, rfl, hRan.schedule⟩
  | none =>
    obtain rfl := hAll rfl
    have hContinues : p.Continues p' := ⟨hExplores.continues.root, hExplores.continues.volume⟩
    rw [List.nil_append, ← hVisited] at hWalked
    refine (hWalked.ensures_finish hBefore hRoot hContinues (hFlushed rfl) hMiddle).mono ?_
    rintro sweep progress s'' ⟨after, hAfter, hSchedule⟩
    exact ⟨after, middle, walk, sweep, hAfter, rfl, hSchedule⟩

/-- Whatever becomes of a pass, its calls have a schedule. -/
theorem scheduled_run (hTree : t.WellFormed) (hPath : path.IsProper) (hBefore : before.Sound)
    (hStart : Pass.start t path told size = .ok p) (hs : s.contents = .table before) :
    (p.run t).Ensures s (Scheduled t p before) := by
  obtain ⟨hNew, hRoot⟩ := Pass.start_eq_ok hStart
  have hAbsolute : p.root.IsAbsolute := hRoot ▸ hPath.absolute
  have hNil : Walked t p.volume before [] [] p.queue before := by
    rw [hNew.queue]
    exact walked_nil hBefore p.volume size
  rw [Pass.run, if_neg (not_not_intro hNew.phase)]
  cases hHidden : p.isHidden t with
  | error fault =>
    have hRan := hNil.ran (Pass.nodup_visited_texts hTree hAbsolute) List.nil_prefix
    exact ⟨before, before, [], [], hs, rfl, hRan.schedule⟩
  | ok isHidden =>
    cases isHidden with
    | false => exact scheduled_of_visible hTree hBefore hNew hAbsolute hHidden hs
    | true =>
      have hVisited : p.visited t = [] := by rw [Pass.visited, hHidden]
      have hPending : p.queue.pending = [] := by
        rw [hNew.queue]
        rfl
      refine Dialogue.ensures_tell.mpr (((hVisited ▸ hNil).ensures_finish hBefore hAbsolute
        (.refl p) hPending hs).mono ?_)
      rintro sweep progress s' ⟨after, hAfter, hSchedule⟩
      exact ⟨after, before, [], sweep, hAfter, rfl, hSchedule⟩

end

end MediaIndex.Reconcile
