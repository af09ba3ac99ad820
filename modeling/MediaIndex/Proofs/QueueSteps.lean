import MediaIndex.Proofs.Calls
import MediaIndex.Reconcile.Queue

/-!
# Steps of the queue

What the queue does when it submits is one of four things, and which of them happens is told by the
answer of the catalog: nothing waited, the batch was applied, it was lost, or it was refused for a
reason that goes on. In every case what was submitted and what still waits are the operations that
waited, in order.
-/

namespace MediaIndex.Reconcile

open Catalog (Operation Store StoreFault Table)

namespace Queue

theorem mem_scanned_mark (q : Queue) (i j : Int) :
    j ∈ (q.mark i).scanned ↔ j ∈ q.scanned ∨ j = i := by
  unfold mark
  split
  · next h =>
    constructor
    · exact .inl
    · rintro (hj | rfl)
      · exact hj
      · exact h
  · simp

theorem pending_mark (q : Queue) (i : Int) : (q.mark i).pending = q.pending := by
  unfold mark
  split <;> rfl

theorem failed_mark (q : Queue) (i : Int) : (q.mark i).failed = q.failed := by
  unfold mark
  split <;> rfl

/-- What a batch wrote joins the rows that count as scanned; nothing else of what a batch is judged
by changes. -/
theorem collect_spec (q : Queue) (ids : List (Option Int)) :
    (q.collect ids).size = q.size ∧ (q.collect ids).pending = q.pending ∧
      (q.collect ids).failed = q.failed ∧
      ∀ j, j ∈ (q.collect ids).scanned ↔ j ∈ q.scanned ∨ some j ∈ ids := by
  have hMem : ∀ j, some j ∈ ids ↔ j ∈ ids.filterMap id := by simp
  simp only [hMem, collect]
  generalize ids.filterMap id = found
  induction found generalizing q with
  | nil => simp
  | cons i found ih =>
    rw [List.foldl_cons]
    obtain ⟨hSize, hPending, hFailed, hScanned⟩ := ih { q.mark i with first := q.first <|> some i }
    have hMark : (q.mark i).size = q.size ∧ (q.mark i).pending = q.pending ∧
        (q.mark i).failed = q.failed := by
      unfold mark
      split <;> exact ⟨rfl, rfl, rfl⟩
    refine ⟨hSize.trans hMark.1, hPending.trans hMark.2.1, hFailed.trans hMark.2.2, ?_⟩
    intro j
    rw [hScanned, mem_scanned_mark, List.mem_cons, or_assoc]

/-- What may become of the operations that wait at a table: the batches that are submitted, the
queue after them, and the table. -/
inductive Submits (q : Queue) (now : Table) : List Call → Progress → Table → Prop where
  | waits : Submits q now [] ⟨q, none⟩ now
  | applied {ids : List (Option Int)} {after : Table} {barrier : Option StoreFault}
      {clock : String} (hSome : q.pending ≠ [])
      (h : now.applyAll barrier clock q.pending = .ok (after, ids)) :
      Submits q now [.submit q.pending (.ok ids)]
        ⟨{ q with pending := [], applied := q.applied + q.pending.length }.collect ids, none⟩ after
  | lost {size : Nat} {fault : StoreFault} (hSome : q.pending ≠ []) :
      Submits q now [.submit q.pending (.error (.batch size fault))]
        ⟨{ q with pending := [], failed := q.failed + 1 }, none⟩ now
  | refused {failure : Catalog.Failure} (hSome : q.pending ≠ [])
      (h : ∀ size fault, failure ≠ .batch size fault) :
      Submits q now [.submit q.pending (.error failure)]
        ⟨{ q with pending := [] }, some failure⟩ now

variable {q : Queue} {now after : Table} {s : Store} {calls : List Call} {progress : Progress}

theorem Submits.operations_append (h : q.Submits now calls progress after) :
    operations calls ++ progress.queue.pending = q.pending := by
  cases h with
  | waits => rfl
  | applied hSome h => simp [operations, Call.ops, (collect_spec _ _).2.1]
  | lost hSome => simp [operations, Call.ops]
  | refused hSome h => simp [operations, Call.ops]

theorem Submits.failed_eq (h : q.Submits now calls progress after) :
    progress.queue.failed = q.failed + (calls.filter (·.isLost)).length := by
  cases h with
  | waits => rfl
  | applied hSome h => simp [(collect_spec _ _).2.2.1, Call.isLost]
  | lost hSome => simp [Call.isLost]
  | refused hSome h => cases ‹Catalog.Failure› <;> simp_all [Call.isLost]

theorem Submits.refused_of_stopped (h : q.Submits now calls progress after)
    (hStopped : progress.failure ≠ none) : ∃ call ∈ calls, call.isRefused = true := by
  cases h with
  | waits => exact absurd rfl hStopped
  | applied hSome h => exact absurd rfl hStopped
  | lost hSome => exact absurd rfl hStopped
  | @refused failure hSome h =>
    refine ⟨_, List.mem_cons_self, ?_⟩
    cases failure with
    | batch size fault => exact absurd rfl (h size fault)
    | lookup path fault => rfl
    | range root fault => rfl
    | tooWide => rfl
    | noOperation shown => rfl

theorem ensures_flush (hs : s.contents = .table now) :
    q.flush.Ensures s fun calls progress s' =>
      ∃ after, s'.contents = .table after ∧ q.Submits now calls progress after ∧
        progress.queue.pending = [] := by
  unfold flush
  split
  · next hEmpty => exact ⟨now, hs, .waits, List.isEmpty_iff.mp hEmpty⟩
  · next hSome =>
    have hSome : q.pending ≠ [] := fun hNil => hSome (List.isEmpty_iff.mpr hNil)
    rw [Dialogue.ensures_apply]
    rcases submit_cases hs q.pending with
      ⟨ids, after, barrier, clock, hReply, hAll, hContents⟩ | ⟨failure, hReply, hContents⟩
    · rw [hReply]
      exact ⟨after, hContents, .applied hSome hAll, (collect_spec _ _).2.1⟩
    · rw [hReply]
      cases failure with
      | batch size fault => exact ⟨now, hContents, .lost hSome, rfl⟩
      | lookup path fault => exact ⟨now, hContents, .refused hSome (by simp), rfl⟩
      | range root fault => exact ⟨now, hContents, .refused hSome (by simp), rfl⟩
      | tooWide => exact ⟨now, hContents, .refused hSome (by simp), rfl⟩
      | noOperation shown => exact ⟨now, hContents, .refused hSome (by simp), rfl⟩

def behind (q : Queue) (op : Operation) : Queue := { q with pending := q.pending ++ [op] }

theorem ensures_add (hs : s.contents = .table now) (op : Operation) :
    (q.add op).Ensures s fun calls progress s' =>
      ∃ after, s'.contents = .table after ∧ (q.behind op).Submits now calls progress after := by
  simp only [add]
  split
  · exact (ensures_flush hs).mono fun calls progress s' ⟨after, hContents, hSubmits, _⟩ =>
      ⟨after, hContents, hSubmits⟩
  · exact ⟨now, hs, .waits⟩

end Queue

end MediaIndex.Reconcile
