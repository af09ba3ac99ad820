import MediaIndex.Proofs.PassSteps

/-!
# Calls that stop a pass

A pass is stopped by an interrupt met on the disk or by a call that goes wrong in a way that is not
set aside: a query that the catalog cannot answer, or a batch that it refuses. A pass that goes on
has made no such call.
-/

namespace MediaIndex.Reconcile

open Catalog (Operation Table)
open Disk (Attributes Tree)
open Walk (Event)

/-- The call goes wrong in a way that is not set aside. -/
def Call.isFatal (call : Call) : Bool := call.isUnanswered || call.isRefused

theorem Call.applied_or_lost {call : Call} (h : call.isFatal = false)
    (hBatch : call.isBatch = true) : call.isApplied = true ∨ call.isLost = true := by
  cases call with
  | lookup volume path reply => cases hBatch
  | idsUnder volume root reply => cases hBatch
  | submit ops reply =>
    cases reply with
    | ok ids => exact .inl rfl
    | error failure => cases failure <;> simp_all [isFatal, isUnanswered, isRefused, isLost]

/-- A report of the walk meets an interrupt on a volume. -/
def Interrupts (t : Tree) (volume : String) : Event → Prop
  | .visit a => ∃ fault, Media.takeIn t false a volume = .error fault
  | .failed _ fault => fault = .interrupted
  | _ => False

theorem Queue.Submits.not_fatal {q : Queue} {now after : Table} {calls : List Call}
    {progress : Queue.Progress} (h : q.Submits now calls progress after)
    (hGoing : progress.failure = none) : ∀ call ∈ calls, call.isFatal = false := by
  cases h with
  | waits => simp
  | applied hSome h => simp [Call.isFatal, Call.isUnanswered, Call.isRefused]
  | lost hSome => simp [Call.isFatal, Call.isUnanswered, Call.isRefused]
  | refused hSome h => cases hGoing

namespace Pass

variable {t : Tree} {p : Pass} {now after : Table} {calls : List Call} {progress : Progress}

/-! ## Passes that are stopped -/

theorem fatal_of_resumed {q : Queue} {queue : Queue.Progress} {count : Tally → Tally}
    (h : q.Submits now calls queue after) (hStopped : (p.resumed queue count).failure ≠ none) :
    ∃ call ∈ calls, call.isFatal = true := by
  have hQueue : queue.failure ≠ none := by
    intro hNone
    simp [resumed, hNone] at hStopped
  obtain ⟨call, hCall, hRefused⟩ := h.refused_of_stopped hQueue
  exact ⟨call, hCall, by rw [Call.isFatal, hRefused, Bool.or_true]⟩

theorem Enqueues.fatal {op : Operation} {count : Tally → Tally}
    (h : Enqueues op count p now calls progress after) (hStopped : progress.failure ≠ none) :
    ∃ call ∈ calls, call.isFatal = true := by
  cases h with
  | intro hSubmits => exact fatal_of_resumed hSubmits hStopped

theorem Flushes.fatal (h : Flushes p now calls progress after)
    (hStopped : progress.failure ≠ none) : ∃ call ∈ calls, call.isFatal = true := by
  cases h with
  | intro hSubmits hEmpty => exact fatal_of_resumed hSubmits hStopped

theorem Observes.fatal {event : Event} (h : Observes t event p now calls progress after)
    (hStopped : progress.failure ≠ none) :
    Interrupts t p.volume event ∨ ∃ call ∈ calls, call.isFatal = true := by
  cases h with
  | visit hVisits =>
    cases hVisits with
    | unanswered => exact .inr ⟨_, List.mem_cons_self, rfl⟩
    | kept h => exact absurd rfl hStopped
    | unreadable h hFault => exact .inl ⟨_, Media.takeIn_eq_error_iff.mp hFault⟩
    | passed h hRead => exact absurd rfl hStopped
    | taken h hEnqueues =>
      obtain ⟨call, hCall, hFatal⟩ := hEnqueues.fatal hStopped
      exact .inr ⟨call, List.mem_cons_of_mem _ hCall, hFatal⟩
  | hidden => exact absurd rfl hStopped
  | interrupted => exact .inl rfl
  | failed h => exact absurd rfl hStopped
  | leave => exact absurd rfl hStopped

theorem Observed.fatal {events : List Event} (h : Observed t events p now calls progress after)
    (hStopped : progress.failure ≠ none) :
    (∃ event ∈ events, Interrupts t p.volume event) ∨ ∃ call ∈ calls, call.isFatal = true := by
  induction events generalizing p now calls with
  | nil =>
    cases h
    exact absurd rfl hStopped
  | cons event events ih =>
    cases h with
    | stopped hFirst =>
      rcases hFirst.fatal hStopped with hEvent | hCall
      · exact .inl ⟨event, List.mem_cons_self, hEvent⟩
      · exact .inr hCall
    | going hFirst hRest =>
      rcases ih hRest with ⟨other, hOther, hEvent⟩ | ⟨call, hCall, hFatal⟩
      · exact .inl ⟨other, List.mem_cons_of_mem event hOther, hFirst.continues.volume ▸ hEvent⟩
      · exact .inr ⟨call, List.mem_append_right _ hCall, hFatal⟩

theorem Explores.fatal (h : Explores t p now calls progress after)
    (hStopped : progress.failure ≠ none) :
    (∃ event ∈ Walk.walk t p.root, Interrupts t p.volume event) ∨
      ∃ call ∈ calls, call.isFatal = true := by
  cases h with
  | stopped hFirst => exact hFirst.fatal hStopped
  | going hFirst hRest =>
    obtain ⟨call, hCall, hFatal⟩ := hRest.fatal hStopped
    exact .inr ⟨call, List.mem_append_right _ hCall, hFatal⟩

theorem Cleaned.fatal {ids : List Int} (h : Cleaned ids p now calls progress after)
    (hStopped : progress.failure ≠ none) : ∃ call ∈ calls, call.isFatal = true := by
  induction ids generalizing p now calls with
  | nil =>
    cases h
    exact absurd rfl hStopped
  | cons id ids ih =>
    cases h with
    | stopped hFirst =>
      cases hFirst with
      | stray hScanned hEnqueues => exact hEnqueues.fatal hStopped
    | going hFirst hRest =>
      obtain ⟨call, hCall, hFatal⟩ := ih hRest
      exact ⟨call, List.mem_append_right _ hCall, hFatal⟩

theorem Sweeps.fatal (h : Sweeps p now calls progress after) (hStopped : progress.failure ≠ none) :
    ∃ call ∈ calls, call.isFatal = true := by
  cases h with
  | unanswered => exact ⟨_, List.mem_cons_self, rfl⟩
  | answered hRest =>
    cases hRest with
    | stopped hFirst =>
      obtain ⟨call, hCall, hFatal⟩ := hFirst.fatal hStopped
      exact ⟨call, List.mem_cons_of_mem _ hCall, hFatal⟩
    | going hFirst hRest =>
      obtain ⟨call, hCall, hFatal⟩ := hRest.fatal hStopped
      exact ⟨call, List.mem_cons_of_mem _ (List.mem_append_right _ hCall), hFatal⟩

structure IsQuiet (t : Tree) (p : Pass) : Prop where
  hidden : ∃ isHidden, p.isHidden t = .ok isHidden
  walk : p.isHidden t = .ok false →
    ∀ event ∈ Walk.walk t p.root, ¬ Interrupts t p.volume event

/-- Apart from interrupts only a call stops a pass. -/
theorem Runs.fatal (h : Runs t p now calls progress after) (hQuiet : p.IsQuiet t)
    (hStopped : progress.failure ≠ none) : ∃ call ∈ calls, call.isFatal = true := by
  cases h with
  | unseen hFault =>
    obtain ⟨isHidden, hHidden⟩ := hQuiet.hidden
    rw [hHidden] at hFault
    cases hFault
  | hidden hHidden hFinishes => exact Sweeps.fatal hFinishes hStopped
  | walked hHidden hRest =>
    cases hRest with
    | stopped hFirst =>
      rcases hFirst.fatal hStopped with ⟨event, hEvent, hInterrupts⟩ | hCall
      · exact absurd hInterrupts (hQuiet.walk hHidden event hEvent)
      · exact hCall
    | going hFirst hRest =>
      obtain ⟨call, hCall, hFatal⟩ := Sweeps.fatal hRest hStopped
      exact ⟨call, List.mem_append_right _ hCall, hFatal⟩

/-! ## Passes that go on -/

/-- No call of the stage is fatal, if it goes on. -/
def Stage.IsHarmless (stage : Stage) : Prop :=
  ∀ ⦃p : Pass⦄ ⦃now after : Table⦄ ⦃calls : List Call⦄ ⦃progress : Progress⦄,
    stage p now calls progress after → progress.failure = none →
      ∀ call ∈ calls, call.isFatal = false

theorem Stage.IsHarmless.andThen {first second : Stage} (h : first.IsHarmless)
    (h' : second.IsHarmless) : (first.andThen second).IsHarmless := by
  intro p now after calls progress hBoth hGoing call hCall
  cases hBoth with
  | stopped hFirst => cases hGoing
  | going hFirst hRest =>
    rcases List.mem_append.mp hCall with hCall | hCall
    · exact h hFirst rfl call hCall
    · exact h' hRest hGoing call hCall

theorem idle_isHarmless : Stage.IsHarmless Idle := by
  rintro _ _ _ _ _ ⟨⟩ - call hCall
  cases hCall

theorem enqueues_isHarmless (op : Operation) (count : Tally → Tally) :
    Stage.IsHarmless (Enqueues op count) := by
  intro p now after calls progress h hGoing
  obtain ⟨queue, hSubmits, -, hFailure⟩ := h.submits
  exact hSubmits.not_fatal (Option.map_eq_none_iff.mp (hFailure ▸ hGoing))

theorem flushes_isHarmless : Stage.IsHarmless Flushes := by
  intro p now after calls progress h hGoing
  obtain ⟨queue, hSubmits, -, hFailure, -⟩ := h.submits
  exact hSubmits.not_fatal (Option.map_eq_none_iff.mp (hFailure ▸ hGoing))

theorem visits_isHarmless (t : Tree) (a : Attributes) : Stage.IsHarmless (Visits t a) := by
  intro p now after calls progress h hGoing
  cases h with
  | unanswered => cases hGoing
  | unreadable hPassed hFault => cases hGoing
  | kept h => simp [Call.isFatal, Call.isUnanswered, Call.isRefused]
  | passed h hRead => simp [Call.isFatal, Call.isUnanswered, Call.isRefused]
  | taken h hEnqueues =>
    intro call hCall
    rcases List.mem_cons.mp hCall with rfl | hCall
    · rfl
    · exact enqueues_isHarmless _ _ hEnqueues hGoing call hCall

theorem observes_isHarmless (t : Tree) (event : Event) : Stage.IsHarmless (Observes t event) := by
  intro p now after calls progress h hGoing
  cases h with
  | visit h => exact visits_isHarmless t _ h hGoing
  | hidden => simp
  | interrupted => cases hGoing
  | failed h => simp
  | leave => simp

theorem observed_isHarmless (t : Tree) (events : List Event) :
    Stage.IsHarmless (Observed t events) := by
  induction events with
  | nil => exact idle_isHarmless
  | cons event events ih => exact (observes_isHarmless t event).andThen ih

theorem explores_isHarmless (t : Tree) : Stage.IsHarmless (Explores t) := by
  intro p now after calls progress h
  exact (observed_isHarmless t (Walk.walk t p.root)).andThen flushes_isHarmless h

theorem cleans_isHarmless (id : Int) : Stage.IsHarmless (Cleans id) := by
  intro p now after calls progress h hGoing
  cases h with
  | confirmed hScanned => simp
  | stray hScanned hEnqueues => exact enqueues_isHarmless _ _ hEnqueues hGoing

theorem cleaned_isHarmless (ids : List Int) : Stage.IsHarmless (Cleaned ids) := by
  induction ids with
  | nil => exact idle_isHarmless
  | cons id ids ih => exact (cleans_isHarmless id).andThen ih

theorem sweeps_isHarmless : Stage.IsHarmless Sweeps := by
  intro p now after calls progress h hGoing call hCall
  cases h with
  | unanswered => cases hGoing
  | answered hRest =>
    rcases List.mem_cons.mp hCall with rfl | hCall
    · rfl
    · exact (cleaned_isHarmless _).andThen flushes_isHarmless hRest hGoing call hCall

theorem runs_isHarmless (t : Tree) : Stage.IsHarmless (Runs t) := by
  intro p now after calls progress h hGoing
  cases h with
  | unseen hFault => cases hGoing
  | hidden hHidden hFinishes => exact sweeps_isHarmless hFinishes hGoing
  | walked hHidden hRest =>
    have hFinishes : Stage.IsHarmless Finishes := fun _ _ _ _ _ hSweeps => sweeps_isHarmless hSweeps
    exact (explores_isHarmless t).andThen hFinishes hRest hGoing

/-! ## Interrupts that a pass has not met -/

theorem Observed.failed_notMem {events : List Event}
    (h : Observed t events p now calls progress after) (hGoing : progress.failure = none)
    {path : Path} : Event.failed path .interrupted ∉ events := by
  induction events generalizing p now calls with
  | nil => exact List.not_mem_nil
  | cons event events ih =>
    cases h with
    | stopped hFirst => cases hGoing
    | going hFirst hRest =>
      intro hMem
      rcases List.mem_cons.mp hMem with rfl | hMem
      · cases hFirst with
        | failed hFault => exact hFault rfl
      · exact ih hRest hMem

theorem Runs.failed_notMem (h : Runs t p now calls progress after)
    (hGoing : progress.failure = none) : ∃ hidden, p.isHidden t = .ok hidden ∧
      (hidden = false → ∀ path, Event.failed path .interrupted ∉ Walk.walk t p.root) := by
  cases h with
  | unseen hFault => cases hGoing
  | hidden hHidden hFinishes => exact ⟨true, hHidden, by simp⟩
  | walked hHidden hRest =>
    refine ⟨false, hHidden, fun _ path => ?_⟩
    cases hRest with
    | stopped hFirst => cases hGoing
    | going hFirst hRest =>
      cases hFirst with
      | going hObserved hFlushes => exact hObserved.failed_notMem rfl

end Pass

end MediaIndex.Reconcile
