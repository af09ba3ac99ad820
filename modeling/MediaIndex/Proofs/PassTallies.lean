import MediaIndex.Proofs.CompletedPass

/-!
# The tally of a pass

Each report of a walk adds to the tally what the standing of its entry says, and a sweep adds one for
each number that it deletes. Entries stand in the walk as they did before the pass, so the tally in
the end is told by the reports, the table before the pass and the numbers met by the sweep, whatever
the batches were.
-/

namespace MediaIndex.Reconcile

open Catalog (Operation Table)
open Disk (Attributes Tree)
open Walk (Event)

/-- The tally after a report of the walk. -/
def Tally.observe (t : Tree) (volume : String) (now : Table) (tally : Tally) : Event → Tally
  | .visit a =>
    let tally := { tally with visited := tally.visited + 1 }
    match standing t volume now a with
    | .kept _ => { tally with unchanged := tally.unchanged + 1 }
    | .taken _ => { tally with queued := tally.queued + 1 }
    | .passed => tally
  | .failed _ _ => { tally with failed := tally.failed + 1 }
  | _ => tally

def Tally.delete (tally : Tally) (count : Nat) : Tally :=
  { tally with deleted := tally.deleted + count }

/-! ## What the stages add -/

namespace Pass

variable {t : Tree} {p : Pass} {now after : Table} {calls : List Call} {progress : Progress}

theorem tally_resumed {queue : Queue.Progress} {count : Tally → Tally}
    (hGoing : (p.resumed queue count).failure = none) :
    (p.resumed queue count).pass.tally = count p.tally := by
  unfold resumed at hGoing ⊢
  split
  · rfl
  · next failure hFailure =>
    simp only [hFailure] at hGoing
    cases hGoing

theorem Enqueues.tally {op : Operation} {count : Tally → Tally}
    (h : Enqueues op count p now calls progress after) (hGoing : progress.failure = none) :
    progress.pass.tally = count p.tally := by
  cases h with
  | intro hSubmits => exact tally_resumed hGoing

theorem Flushes.tally (h : Flushes p now calls progress after) (hGoing : progress.failure = none) :
    progress.pass.tally = p.tally := by
  cases h with
  | intro hSubmits hEmpty => exact tally_resumed hGoing

theorem Observes.tally {event : Event} (h : Observes t event p now calls progress after)
    (hGoing : progress.failure = none) :
    progress.pass.tally = p.tally.observe t p.volume now event := by
  cases h with
  | visit hVisits =>
    cases hVisits with
    | unanswered => cases hGoing
    | kept hKept =>
      simp only [Tally.observe, hKept]
      rfl
    | unreadable hPassed hFault => cases hGoing
    | passed hPassed hRead =>
      simp only [Tally.observe, hPassed]
      rfl
    | taken hTaken hEnqueues =>
      simp only [Tally.observe, hTaken]
      exact hEnqueues.tally hGoing
  | hidden => rfl
  | interrupted => cases hGoing
  | failed hFault => rfl
  | leave => rfl

end Pass

variable {t : Tree} {p : Pass} {before now after : Table} {done : List Attributes}
  {calls more : List Call} {stray : List Int} {q₀ : Queue} {progress : Pass.Progress}

/-- A report adds what it would have added before the pass, for no earlier step looked at its
path. -/
theorem Walked.observe_eq (hBefore : before.Sound)
    (h : Walked t p.volume before done calls p.queue now) {event : Event}
    (hFresh : ∀ a ∈ event.visited?, a.path.text ∉ done.map (·.path.text)) (tally : Tally) :
    tally.observe t p.volume now event = tally.observe t p.volume before event := by
  cases event with
  | visit a => rw [Tally.observe, Tally.observe, h.standing_eq hBefore (hFresh a rfl)]
  | hidden path => rfl
  | failed path fault => rfl
  | leave path => rfl

theorem Walked.observed_tally (hBefore : before.Sound)
    (h : Walked t p.volume before done calls p.queue now) {events : List Event}
    (hDistinct : ((done ++ events.filterMap Event.visited?).map (·.path.text)).Nodup)
    (hObserved : Pass.Observed t events p now more progress after)
    (hGoing : progress.failure = none) :
    progress.pass.tally = events.foldl (Tally.observe t p.volume before) p.tally := by
  -- The ledger is carried along: it says that the next entry stands as it did before the pass.
  induction events generalizing done calls p now more with
  | nil =>
    cases hObserved
    rfl
  | cons event events ih =>
    have hFresh := not_mem_of_nodup_visited hDistinct
    cases hObserved with
    | stopped hFirst => cases hGoing
    | going hFirst hRest =>
      obtain ⟨part, -, hWalked, hAll⟩ := h.observes hBefore hFresh hFirst
      obtain rfl := hAll rfl
      rw [visited_cons, ← List.append_assoc] at hDistinct
      rw [List.foldl_cons, ← h.observe_eq hBefore hFresh, ← hFirst.tally rfl,
        ← hFirst.continues.volume]
      rw [← hFirst.continues.volume] at hWalked
      exact ih hWalked hDistinct hRest

theorem Swept.cleaned_tally (h : Swept before stray q₀ calls p.queue now) {ids : List Int}
    (hCleaned : Pass.Cleaned ids p now more progress after) (hGoing : progress.failure = none) :
    progress.pass.tally = p.tally.delete (ids.filter (· ∉ q₀.scanned)).length := by
  induction ids generalizing stray calls p now more with
  | nil =>
    cases hCleaned
    rfl
  | cons id ids ih =>
    cases hCleaned with
    | stopped hFirst => cases hGoing
    | going hFirst hRest =>
      obtain ⟨part, -, hSwept, -⟩ := h.cleans hFirst
      rw [ih hSwept hRest]
      cases hFirst with
      | confirmed hScanned =>
        rw [List.filter_cons_of_neg (by simpa using (h.scanned id).mp hScanned)]
      | stray hScanned hEnqueues =>
        have hNew : id ∉ q₀.scanned := fun hOld => hScanned ((h.scanned id).mpr hOld)
        rw [List.filter_cons_of_pos (by simpa using hNew), hEnqueues.tally rfl]
        exact congrArg (fun deleted => { p.tally with deleted })
          (Nat.add_right_comm p.tally.deleted 1 _)

theorem tally_of_finishes (h : Pass.Finishes p now calls progress after) (hNow : now.Sound)
    (hPending : p.queue.pending = []) (hGoing : progress.failure = none) :
    progress.pass.tally = p.tally.delete
      ((now.idsUnder p.volume p.root).filter (· ∉ p.queue.scanned)).length := by
  cases h with
  | unanswered => cases hGoing
  | answered h =>
    cases h with
    | stopped hFirst => cases hGoing
    | going hFirst hFlushes =>
      have hAsked : Swept now [] p.queue
          [.idsUnder p.volume p.root (.ok (now.idsUnder p.volume p.root))] p.queue now :=
        swept_asked hNow hPending rfl
      rw [hFlushes.tally hGoing]
      exact Swept.cleaned_tally (p := { p with phase := .sweeping }) hAsked hFirst rfl

theorem tally_of_explores (hTree : t.WellFormed) (hBefore : before.Sound) {size : Int}
    (hRoot : p.root.IsAbsolute) (hQueue : p.queue = .ofSize size)
    (h : Pass.Explores t p before calls progress after) (hGoing : progress.failure = none) :
    progress.pass.tally = (Walk.walk t p.root).foldl (Tally.observe t p.volume before) p.tally := by
  have hNil : Walked t p.volume before [] [] p.queue before := by
    rw [hQueue]
    exact walked_nil hBefore p.volume size
  cases h with
  | stopped hFirst => cases hGoing
  | going hFirst hFlushes =>
    rw [hFlushes.tally hGoing]
    exact hNil.observed_tally hBefore (Walk.nodup_visits_texts hTree hRoot) hFirst rfl

/-! ## What the tally of a walk counts -/

section

variable (t : Tree) (volume : String) (before : Table)

def Standing.isKept : Standing → Bool
  | .kept _ => true
  | _ => false

def Standing.isTaken : Standing → Bool
  | .taken _ => true
  | _ => false

/-- The tally of a walk counts the entries that it visits, those that are kept and those that are
taken in. -/
theorem foldl_observe (events : List Event) (tally : Tally) :
    let later := events.foldl (Tally.observe t volume before) tally
    let entries := events.filterMap Event.visited?
    later.visited = tally.visited + entries.length ∧
    later.unchanged = tally.unchanged +
      entries.countP (fun a => (standing t volume before a).isKept) ∧
    later.queued = tally.queued +
      entries.countP (fun a => (standing t volume before a).isTaken) ∧
    later.deleted = tally.deleted := by
  induction events generalizing tally with
  | nil => exact ⟨rfl, rfl, rfl, rfl⟩
  | cons event events ih =>
    obtain ⟨hVisited, hUnchanged, hQueued, hDeleted⟩ := ih (tally.observe t volume before event)
    simp only [List.foldl_cons, hVisited, hUnchanged, hQueued, hDeleted, visited_cons,
      List.length_append, List.countP_append]
    cases event with
    | visit a =>
      cases hStanding : standing t volume before a <;>
        simp [Tally.observe, Event.visited?, hStanding, Standing.isKept, Standing.isTaken] <;> omega
    | hidden path => simp [Tally.observe, Event.visited?]
    | failed path fault => simp [Tally.observe, Event.visited?]
    | leave path => simp [Tally.observe, Event.visited?]

end

end MediaIndex.Reconcile
