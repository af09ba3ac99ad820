import MediaIndex.Proofs.BatchRows
import MediaIndex.Proofs.PassSteps

/-!
# The ledger of a sweep

At every point of a sweep, what was submitted and what still waits are the deletions of the numbers
met so far that do not count as scanned, in order; the table has lost the rows of the applied ones
and nothing else. A deletion makes no number count as scanned.
-/

namespace MediaIndex.Reconcile

open Catalog (Operation Table)

/-- What a sweep has done so far, from a table and a queue before it: the numbers it deletes, the
calls it made, the queue, and the table now. -/
structure Swept (before : Table) (stray : List Int) (q₀ : Queue) (calls : List Call) (q : Queue)
    (now : Table) : Prop where
  queued : operations calls ++ q.pending = stray.map .delete
  erases : before.Erases (erased calls) now
  scanned : ∀ id, id ∈ q.scanned ↔ id ∈ q₀.scanned
  failed : q.failed = q₀.failed + (calls.filter (·.isLost)).length

variable {before now after : Table} {stray : List Int} {calls more : List Call} {q₀ q : Queue}

theorem swept_asked (hBefore : before.Sound) (hPending : q.pending = []) {call : Call}
    (hCall : call.isBatch = false) : Swept before [] q [call] q before := by
  cases call with
  | submit ops reply => cases hCall
  | lookup volume path reply =>
    exact ⟨hPending, hBefore.erases_nil, fun _ => Iff.rfl, rfl⟩
  | idsUnder volume root reply =>
    exact ⟨hPending, hBefore.erases_nil, fun _ => Iff.rfl, rfl⟩

theorem Queue.Submits.erases {progress : Queue.Progress} (h : q.Submits now more progress after)
    (hNow : now.Sound) {waiting : List Int} (hWaiting : q.pending = waiting.map .delete) :
    now.Erases (erased more) after ∧ ∀ id, id ∈ progress.queue.scanned ↔ id ∈ q.scanned := by
  cases h with
  | waits => exact ⟨hNow.erases_nil, fun id => Iff.rfl⟩
  | lost hSome => exact ⟨by simpa [erased, Call.isApplied] using hNow.erases_nil, fun id => Iff.rfl⟩
  | refused hSome hOther =>
    exact ⟨by simpa [erased, Call.isApplied] using hNow.erases_nil, fun id => Iff.rfl⟩
  | @applied ids after barrier clock hSome hApply =>
    have hMore : erased [Call.submit q.pending (.ok ids)] = waiting := by
      rw [erased, applied_cons, hWaiting]
      exact (congrArg (List.filterMap _) (List.append_nil _)).trans (filterMap_id?_delete waiting)
    rw [hWaiting] at hApply
    obtain ⟨hErases, hNone⟩ := hNow.erases_applyAll hApply
    rw [hMore]
    refine ⟨hErases, fun id => ?_⟩
    have hMem : some id ∉ ids := by
      intro hId
      have hFound : id ∈ ids.filterMap fun found => found :=
        List.mem_filterMap.mpr ⟨some id, hId, rfl⟩
      exact List.not_mem_nil (hNone ▸ hFound)
    rw [(Queue.collect_spec _ _).2.2.2]
    exact ⟨fun h => h.resolve_right hMem, .inl⟩

theorem Swept.waiting (h : Swept before stray q₀ calls q now) :
    ∃ waiting : List Int, q.pending = waiting.map .delete := by
  obtain ⟨_, waiting, -, -, hWaiting⟩ := List.map_eq_append_iff.mp h.queued.symm
  exact ⟨waiting, hWaiting.symm⟩

theorem Swept.submits (h : Swept before stray q₀ calls q now) {progress : Queue.Progress}
    (hSubmits : q.Submits now more progress after) :
    Swept before stray q₀ (calls ++ more) progress.queue after := by
  obtain ⟨waiting, hWaiting⟩ := h.waiting
  obtain ⟨hErases, hScanned⟩ := hSubmits.erases h.erases.sound hWaiting
  refine ⟨?_, ?_, fun id => (hScanned id).trans (h.scanned id), ?_⟩
  · rw [operations_append, List.append_assoc, hSubmits.operations_append, h.queued]
  · rw [erased_append]
    exact h.erases.trans hErases
  · rw [hSubmits.failed_eq, h.failed, List.filter_append, List.length_append, Nat.add_assoc]

theorem Swept.next (h : Swept before stray q₀ calls q now) (id : Int) :
    Swept before (stray ++ [id]) q₀ calls (q.behind (.delete id)) now where
  queued := by
    rw [Queue.behind, ← List.append_assoc, h.queued, List.map_append]
    rfl
  erases := h.erases
  scanned := h.scanned
  failed := h.failed

/-- The ledger covers the first of the numbers, and all of them unless the pass was stopped. -/
def Sweeping (before : Table) (stray ids : List Int) (q₀ : Queue) (calls : List Call)
    (progress : Pass.Progress) (now : Table) : Prop :=
  ∃ part, part <+: ids ∧ Swept before (stray ++ part) q₀ calls progress.pass.queue now ∧
    (progress.failure = none → part = ids)

theorem Swept.sweeping {ids : List Int} {progress : Pass.Progress}
    (h : Swept before (stray ++ ids) q₀ calls progress.pass.queue now) :
    Sweeping before stray ids q₀ calls progress now :=
  ⟨ids, List.prefix_refl ids, h, fun _ => rfl⟩

theorem Swept.cleans {p : Pass} (h : Swept before stray q₀ calls p.queue now) {id : Int}
    {progress : Pass.Progress} (hCleans : Pass.Cleans id p now more progress after) :
    Sweeping before stray ([id].filter (· ∉ q₀.scanned)) q₀ (calls ++ more) progress after := by
  cases hCleans with
  | confirmed hScanned =>
    have hOld : id ∈ q₀.scanned := (h.scanned id).mp hScanned
    have hNone : [id].filter (· ∉ q₀.scanned) = [] := by simp [hOld]
    apply Swept.sweeping
    rw [hNone, List.append_nil, List.append_nil]
    exact h
  | stray hScanned hEnqueues =>
    have hNew : id ∉ q₀.scanned := fun hOld => hScanned ((h.scanned id).mpr hOld)
    have hStray : [id].filter (· ∉ q₀.scanned) = [id] := by simp [hNew]
    obtain ⟨queue, hSubmits, hQueue, -⟩ := hEnqueues.submits
    apply Swept.sweeping
    rw [hStray, hQueue]
    exact (h.next id).submits hSubmits

theorem Swept.cleaned {p : Pass} (h : Swept before stray q₀ calls p.queue now) {ids : List Int}
    {progress : Pass.Progress} (hCleaned : Pass.Cleaned ids p now more progress after) :
    Sweeping before stray (ids.filter (· ∉ q₀.scanned)) q₀ (calls ++ more) progress after := by
  induction ids generalizing stray calls p now more with
  | nil =>
    cases hCleaned
    apply Swept.sweeping
    rw [List.filter_nil, List.append_nil, List.append_nil]
    exact h
  | cons id ids ih =>
    rw [← List.singleton_append, List.filter_append]
    cases hCleaned with
    | stopped hFirst =>
      obtain ⟨part, hPart, hSwept, -⟩ := h.cleans hFirst
      exact ⟨part, hPart.trans (List.prefix_append _ _), hSwept, fun hGoing => by cases hGoing⟩
    | going hFirst hRest =>
      obtain ⟨part, -, hSwept, hAll⟩ := h.cleans hFirst
      obtain rfl := hAll rfl
      obtain ⟨more, hMore, hSwept, hAll⟩ := ih hSwept hRest
      refine ⟨_ ++ more, (List.prefix_append_right_inj _).mpr hMore, ?_,
        fun hGoing => by rw [hAll hGoing]⟩
      rw [← List.append_assoc, ← List.append_assoc]
      exact hSwept

/-- A sweep deletes the first of what the catalog tells and does not count as scanned, and unless it
is stopped all of it, and then it leaves nothing waiting. -/
theorem sweeping_of_sweeps {p : Pass} {progress : Pass.Progress}
    (h : Pass.Sweeps p now calls progress after) (hNow : now.Sound)
    (hPending : p.queue.pending = []) :
    Sweeping now [] ((now.idsUnder p.volume p.root).filter (· ∉ p.queue.scanned)) p.queue calls
        progress after ∧ (progress.failure = none → progress.pass.queue.pending = []) := by
  cases h with
  | unanswered =>
    exact ⟨⟨[], List.nil_prefix, swept_asked hNow hPending rfl, fun hGoing => by cases hGoing⟩,
      fun hGoing => by cases hGoing⟩
  | answered h =>
    have hAsked : Swept now [] p.queue
        [.idsUnder p.volume p.root (.ok (now.idsUnder p.volume p.root))] p.queue now :=
      swept_asked hNow hPending rfl
    cases h with
    | stopped hFirst => exact ⟨hAsked.cleaned hFirst, fun hGoing => by cases hGoing⟩
    | going hFirst hFlushes =>
      obtain ⟨part, -, hSwept, hAll⟩ := hAsked.cleaned hFirst
      obtain rfl := hAll rfl
      obtain ⟨queue, hSubmits, hQueue, -, hEmpty⟩ := hFlushes.submits
      exact ⟨Swept.sweeping (hQueue ▸ hSwept.submits hSubmits), fun _ => hEmpty⟩

end MediaIndex.Reconcile
