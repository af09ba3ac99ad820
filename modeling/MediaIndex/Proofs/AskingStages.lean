import MediaIndex.Proofs.WalkLedger

/-!
# Stages that only ask

A stage that finds all settled makes no batch: every entry that is reported is kept, or has neither
a row nor a record, and every number that the catalog tells counts as scanned. It leaves the table
as it is and counts nothing as queued or deleted, and only a query that is not answered stops it.
-/

namespace MediaIndex.Reconcile

open Catalog (Table)
open Disk (Tree)
open Walk (Event)

/-- The walk reports nothing that a pass has to act on. -/
def IsSettled (t : Tree) (volume : String) (now : Table) : Event → Prop
  | .visit a => (∃ entry, standing t volume now a = .kept entry) ∨
      standing t volume now a = .passed ∧ IsRead t volume a
  | .failed _ fault => fault ≠ .interrupted
  | _ => True

/-- Nothing was submitted, and nothing counted as queued or deleted; only a query that the catalog
cannot answer stops the pass. -/
structure Asks (p : Pass) (now : Table) (calls : List Call) (progress : Pass.Progress)
    (after : Table) : Prop where
  table : after = now
  batches : ∀ call ∈ calls, call.isBatch = false
  pending : progress.pass.queue.pending = p.queue.pending
  queued : progress.pass.tally.queued = p.tally.queued
  deleted : progress.pass.tally.deleted = p.tally.deleted
  failed : progress.pass.queue.failed = p.queue.failed
  answered : progress.failure ≠ none → ∃ call ∈ calls, call.isUnanswered = true

section

variable {t : Tree} {p p' : Pass} {now between after : Table} {calls more : List Call}
  {progress : Pass.Progress}

theorem asks_of_going (hPending : p'.queue.pending = p.queue.pending)
    (hQueued : p'.tally.queued = p.tally.queued) (hDeleted : p'.tally.deleted = p.tally.deleted)
    (hFailed : p'.queue.failed = p.queue.failed) (hCalls : ∀ call ∈ calls, call.isBatch = false) :
    Asks p now calls ⟨p', none⟩ now :=
  ⟨rfl, hCalls, hPending, hQueued, hDeleted, hFailed, fun hStopped => absurd rfl hStopped⟩

theorem Asks.of_phase {phase : Phase} (h : Asks { p with phase } now calls progress after) :
    Asks p now calls progress after :=
  ⟨h.table, h.batches, h.pending, h.queued, h.deleted, h.failed, h.answered⟩

theorem Asks.trans (h : Asks p now calls ⟨p', none⟩ between)
    (h' : Asks p' between more progress after) : Asks p now (calls ++ more) progress after where
  table := h'.table.trans h.table
  batches call hCall := (List.mem_append.mp hCall).elim (h.batches call) (h'.batches call)
  pending := h'.pending.trans h.pending
  queued := h'.queued.trans h.queued
  deleted := h'.deleted.trans h.deleted
  failed := h'.failed.trans h.failed
  answered hStopped := by
    obtain ⟨call, hCall, hUnanswered⟩ := h'.answered hStopped
    exact ⟨call, List.mem_append_right _ hCall, hUnanswered⟩

theorem asks_of_observes {event : Event} (hSettled : IsSettled t p.volume now event)
    (h : Pass.Observes t event p now calls progress after) : Asks p now calls progress after := by
  cases h with
  | @visit _ _ _ _ _ a hVisits =>
    cases hVisits with
    | unanswered =>
      exact ⟨rfl, by simp [Call.isBatch], rfl, rfl, rfl, rfl, fun _ => ⟨_, List.mem_cons_self, rfl⟩⟩
    | kept hKept =>
      exact asks_of_going (Queue.pending_mark _ _) rfl rfl (Queue.failed_mark _ _)
        (by simp [Call.isBatch])
    | unreadable hPassed hFault =>
      rcases hSettled with ⟨entry, hKept⟩ | ⟨-, hRead⟩
      · rw [hKept] at hPassed
        cases hPassed
      · exact absurd (Media.takeIn_eq_error_iff.mp hFault) (hRead _)
    | passed hPassed hRead => exact asks_of_going rfl rfl rfl rfl (by simp [Call.isBatch])
    | taken hTaken hEnqueues =>
      rcases hSettled with ⟨entry, hKept⟩ | ⟨hPassed, -⟩
      · rw [hKept] at hTaken
        cases hTaken
      · rw [hPassed] at hTaken
        cases hTaken
  | hidden => exact asks_of_going rfl rfl rfl rfl (by simp)
  | interrupted => exact absurd rfl hSettled
  | failed hFault => exact asks_of_going rfl rfl rfl rfl (by simp)
  | leave => exact asks_of_going rfl rfl rfl rfl (by simp)

theorem asks_of_observed {events : List Event}
    (hSettled : ∀ event ∈ events, IsSettled t p.volume now event)
    (h : Pass.Observed t events p now calls progress after) : Asks p now calls progress after := by
  induction events generalizing p now calls with
  | nil =>
    cases h
    exact asks_of_going rfl rfl rfl rfl (by simp)
  | cons event events ih =>
    rw [List.forall_mem_cons] at hSettled
    cases h with
    | stopped hFirst => exact asks_of_observes hSettled.1 hFirst
    | going hFirst hRest =>
      have hAsks := asks_of_observes hSettled.1 hFirst
      obtain rfl := hAsks.table
      refine hAsks.trans (ih ?_ hRest)
      rw [hFirst.continues.volume]
      exact hSettled.2

theorem asks_of_flushes (hPending : p.queue.pending = [])
    (h : Pass.Flushes p now calls progress after) : Asks p now calls progress after := by
  cases h with
  | intro hSubmits hEmpty =>
    cases hSubmits with
    | waits => exact asks_of_going rfl rfl rfl rfl (by simp)
    | applied hSome => exact absurd hPending hSome
    | lost hSome => exact absurd hPending hSome
    | refused hSome => exact absurd hPending hSome

theorem asks_of_explores (hPending : p.queue.pending = [])
    (hSettled : ∀ event ∈ Walk.walk t p.root, IsSettled t p.volume now event)
    (h : Pass.Explores t p now calls progress after) : Asks p now calls progress after := by
  cases h with
  | stopped hFirst => exact asks_of_observed hSettled hFirst
  | going hFirst hRest =>
    have hAsks := asks_of_observed hSettled hFirst
    exact hAsks.trans (asks_of_flushes (hAsks.pending.trans hPending) hRest)

theorem asks_of_cleaned {ids : List Int} (hScanned : ∀ id ∈ ids, id ∈ p.queue.scanned)
    (h : Pass.Cleaned ids p now calls progress after) : Asks p now calls progress after ∧
      progress.pass = p := by
  induction ids generalizing p now calls with
  | nil =>
    cases h
    exact ⟨asks_of_going rfl rfl rfl rfl (by simp), rfl⟩
  | cons id ids ih =>
    rw [List.forall_mem_cons] at hScanned
    cases h with
    | stopped hFirst =>
      cases hFirst with
      | stray hStray hEnqueues => exact absurd hScanned.1 hStray
    | going hFirst hRest =>
      cases hFirst with
      | confirmed hOld => exact ih hScanned.2 hRest
      | stray hStray hEnqueues => exact absurd hScanned.1 hStray

theorem asks_of_sweeps (hPending : p.queue.pending = [])
    (hScanned : ∀ id ∈ now.idsUnder p.volume p.root, id ∈ p.queue.scanned)
    (h : Pass.Sweeps p now calls progress after) : Asks p now calls progress after := by
  cases h with
  | unanswered =>
    exact ⟨rfl, by simp [Call.isBatch], rfl, rfl, rfl, rfl, fun _ => ⟨_, List.mem_cons_self, rfl⟩⟩
  | answered hRest =>
    have hAsked : Asks p now [.idsUnder p.volume p.root (.ok (now.idsUnder p.volume p.root))]
        ⟨p, none⟩ now := asks_of_going rfl rfl rfl rfl (by simp [Call.isBatch])
    apply hAsked.trans
    cases hRest with
    | stopped hFirst => exact (asks_of_cleaned hScanned hFirst).1
    | going hFirst hRest =>
      obtain ⟨hAsks, -⟩ := asks_of_cleaned hScanned hFirst
      exact hAsks.trans (asks_of_flushes (hAsks.pending.trans hPending) hRest)

end

end MediaIndex.Reconcile
