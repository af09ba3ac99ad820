import MediaIndex.Proofs.ImmediateCourse
import MediaIndex.Proofs.PassLedger
import MediaIndex.Proofs.QueryFaults
import MediaIndex.Proofs.QueueLedger

/-!
# The course of a pass with a queue

What still waits in a queue can be done ahead in thought. Once it is, a pass none of whose batches
fails has come, at every step and whatever its queue holds, as far as a pass that lets nothing wait:
it asks the same, is answered the same, and finds the same operations due. In the walk this is
because no entry has the path of an operation that waits, and in the sweep because deletions tell no
numbers.
-/

namespace MediaIndex.Reconcile

open Catalog (Operation Store StoreFault Table)
open Disk (Attributes Tree)
open Walk (Event)

namespace Pass

/-- How far a pass has come without what waits. -/
def stored (p : Pass) (now : Table) : Course :=
  ⟨p.root, p.volume, p.told, p.phase, now.undated, p.queue.scanned.toFinset, p.queue.first, p.tally⟩

/-- How far a pass has come once everything that waits is done. -/
def course (p : Pass) (now : Table) : Course :=
  p.queue.pending.foldl Course.perform (p.stored now)

def Progress.course (progress : Progress) (now : Table) : Course.Progress :=
  ⟨progress.pass.course now, progress.failure⟩

variable {t : Tree} {p : Pass} {now after : Table} {calls : List Call} {progress : Progress}

theorem course_of_pending_nil (h : p.queue.pending = []) : p.course now = p.stored now := by
  rw [course, h, List.foldl_nil]

/-- Where nothing waits, passes that have come equally far show no difference but in dates. -/
theorem same_of_course_eq {p' : Pass} {now' : Table} (hEmpty : p.queue.pending = [])
    (hEmpty' : p'.queue.pending = []) (h : p'.course now' = p.course now) :
    now'.undated = now.undated ∧ (∀ id, id ∈ p'.queue.scanned ↔ id ∈ p.queue.scanned) ∧
      p'.queue.first = p.queue.first := by
  rw [course_of_pending_nil hEmpty, course_of_pending_nil hEmpty'] at h
  have hScanned : p'.queue.scanned.toFinset = p.queue.scanned.toFinset :=
    congrArg Course.scanned h
  refine ⟨congrArg Course.table h, fun id => ?_, congrArg Course.first h⟩
  rw [← List.mem_toFinset, hScanned, List.mem_toFinset]

theorem course_eq (p : Pass) (now : Table) :
    ∃ table scanned first, p.course now = { p.stored now with table, scanned, first } :=
  Course.foldl_perform_eq _ _

theorem setting_course (p : Pass) (now : Table) :
    (p.course now).root = p.root ∧ (p.course now).volume = p.volume ∧
      (p.course now).told = p.told ∧ (p.course now).phase = p.phase ∧
      (p.course now).tally = p.tally := by
  obtain ⟨table, scanned, first, hCourse⟩ := p.course_eq now
  rw [hCourse]
  exact ⟨rfl, rfl, rfl, rfl, rfl⟩

theorem course_count (p : Pass) (now : Table) (f : Tally → Tally) :
    { p with tally := f p.tally : Pass }.course now = (p.course now).count f :=
  Course.foldl_perform_count (c := p.stored now) f p.queue.pending

theorem course_phase (h : p.queue.pending = []) (phase : Phase) :
    { p with phase : Pass }.course now = { p.course now with phase } := by
  simp only [course, h, List.foldl_nil]
  rfl

/-! ## The queue -/

theorem resumed_of_none {queue : Queue.Progress} (h : queue.failure = none)
    (count : Tally → Tally) :
    p.resumed queue count = ⟨{ p with queue := queue.queue, tally := count p.tally }, none⟩ := by
  rw [resumed, h]

theorem course_of_submits {queue : Queue.Progress} (h : p.queue.Submits now calls queue after)
    (hFine : NoneFails calls) : queue.failure = none ∧
      { p with queue := queue.queue : Pass }.course after = p.course now := by
  cases h with
  | waits => exact ⟨rfl, rfl⟩
  | lost hSome => cases hFine _ List.mem_cons_self rfl
  | refused hSome hOther => cases hFine _ List.mem_cons_self rfl
  | @applied ids after barrier clock hSome hApply =>
    obtain ⟨-, hPending, -, hScanned⟩ := Queue.collect_spec
      { p.queue with pending := [], applied := p.queue.applied + p.queue.pending.length } ids
    obtain ⟨-, hFirst⟩ := Queue.collect_counts
      { p.queue with pending := [], applied := p.queue.applied + p.queue.pending.length } ids
    refine ⟨rfl, ?_⟩
    rw [course_of_pending_nil hPending, course,
      Course.foldl_perform_of_applyAll (c := p.stored now) rfl hApply, stored, hFirst]
    congr 1
    refine Finset.ext fun j => ?_
    simp [stored, hScanned]

theorem course_of_enqueues {op : Operation} {count : Tally → Tally}
    (h : Enqueues op count p now calls progress after) (hFine : NoneFails calls) :
    progress.course after = ⟨((p.course now).perform op).count count, none⟩ := by
  cases h with
  | @intro _ _ _ _ queue hSubmits =>
    obtain ⟨hFailure, hCourse⟩ :=
      course_of_submits (p := { p with queue := p.queue.behind op }) hSubmits hFine
    have hBehind : { p with queue := p.queue.behind op : Pass }.course now =
        (p.course now).perform op := by
      simp only [course, Queue.behind, List.foldl_append]
      rfl
    rw [← hBehind, ← hCourse, resumed_of_none hFailure]
    exact congrArg (Course.Progress.mk · none)
      (course_count { p with queue := queue.queue } after count)

theorem course_of_flushes (h : Flushes p now calls progress after) (hFine : NoneFails calls) :
    progress.course after = ⟨p.course now, none⟩ := by
  cases h with
  | @intro _ _ _ _ queue hSubmits hEmpty =>
    obtain ⟨hFailure, hCourse⟩ := course_of_submits hSubmits hFine
    rw [← hCourse, resumed_of_none hFailure]
    rfl

theorem queries_of_submits {q : Queue} {queue : Queue.Progress}
    (h : q.Submits now calls queue after) : queries calls = 0 := by
  cases h <;> rfl

theorem Flushes.leaves (h : Flushes p now calls progress after) :
    progress.pass.queue.pending = [] ∧ progress.pass.tally = p.tally ∧ queries calls = 0 := by
  cases h with
  | @intro _ _ _ _ queue hSubmits hEmpty =>
    refine ⟨by rw [queue_resumed, hEmpty], ?_, queries_of_submits hSubmits⟩
    unfold resumed
    split <;> rfl

/-! ## The walk -/

theorem course_visiting (p : Pass) (now : Table) :
    p.visiting.course now = (p.course now).count Course.countVisited :=
  p.course_count now Course.countVisited

theorem course_confirming (p : Pass) (now : Table) (id : Int) :
    (p.confirming id).course now = ((p.course now).confirm id).count Course.countUnchanged := by
  have hMarked : (p.confirming id).stored now =
      ((p.stored now).confirm id).count Course.countUnchanged := by
    have hScanned : (p.queue.mark id).scanned.toFinset = insert id p.queue.scanned.toFinset := by
      refine Finset.ext fun j => ?_
      rw [List.mem_toFinset, Queue.mem_scanned_mark, Finset.mem_insert, List.mem_toFinset, or_comm]
    simp only [stored, confirming, hScanned, (p.queue.mark_counts id).2.1, Course.confirm,
      Course.count, Course.countUnchanged]
  have hPending : (p.confirming id).queue.pending = p.queue.pending := Queue.pending_mark _ _
  rw [course, hPending, hMarked, Course.foldl_perform_count, Course.foldl_perform_confirm]
  rfl

/-- What waits are records at the paths of some entries. -/
structure Awaits (p : Pass) (now : Table) (done : List Attributes) : Prop where
  sound : now.Sound
  waiting : ∀ op ∈ p.queue.pending, ∃ record, op = .upsert record ∧
    ∃ a ∈ done, Table.pathOf record = .text a.path.text

variable {faults : Nat → Option StoreFault} {done : List Attributes} {a : Attributes}

theorem Awaits.standing_eq (h : p.Awaits now done)
    (hFresh : a.path.text ∉ done.map (·.path.text)) :
    standing t p.volume (p.course now).table a = standing t p.volume now a := by
  have hUndated : standing t p.volume now.undated a = standing t p.volume now a := by
    rw [standing, standing, Table.lookup_undated]
  have hStored : (p.stored now).table.Sound := h.sound.undated
  rw [← hUndated]
  apply standing_congr hStored (Course.sound_foldl_perform hStored p.queue.pending)
  refine Course.rowOf?_foldl_perform hStored fun op hOp => ?_
  obtain ⟨record, rfl, b, hb, hPath⟩ := h.waiting op hOp
  refine ⟨record, rfl, fun hSame => hFresh ?_⟩
  rw [hPath, Catalog.Cell.text.injEq] at hSame
  exact hSame ▸ List.mem_map_of_mem hb

theorem course_of_visits (hAwaits : p.Awaits now done)
    (hFresh : a.path.text ∉ done.map (·.path.text))
    (h : Visits t a p now calls progress after) (hFine : NoneFails calls)
    (hMeets : Meets faults p.tally.visited calls) :
    progress.course after = (p.course now).visit t faults a := by
  obtain ⟨hRoot, hVolume, hTold, -, hTally⟩ := p.setting_course now
  rw [Course.visit, hRoot, hVolume, hTold, hTally, hAwaits.standing_eq hFresh]
  cases h with
  | @unanswered _ _ fault =>
    rw [← hMeets.1, ← course_visiting]
    rfl
  | kept hKept =>
    rw [← hMeets.1, hKept, ← course_visiting]
    exact congrArg (Course.Progress.mk · none) (course_confirming p.visiting now _)
  | unreadable hPassed hFault =>
    rw [← hMeets.1, hPassed, hFault, ← course_visiting]
    rfl
  | passed hPassed hRead =>
    rw [← hMeets.1, hPassed, ← course_visiting]
    cases hTake : Media.takeIn t p.told a p.volume with
    | error fault => exact absurd hTake (hRead fault)
    | ok intake => rfl
  | taken hTaken hEnqueues =>
    rw [← hMeets.1, hTaken, ← course_visiting,
      course_of_enqueues hEnqueues fun call hCall => hFine call (List.mem_cons_of_mem _ hCall)]

theorem course_of_observes {event : Event} (hAwaits : p.Awaits now done)
    (hFresh : ∀ a ∈ event.visited?, a.path.text ∉ done.map (·.path.text))
    (h : Observes t event p now calls progress after) (hFine : NoneFails calls)
    (hMeets : Meets faults p.tally.visited calls) :
    progress.course after = (p.course now).observe t faults event := by
  cases h with
  | visit hVisits => exact course_of_visits hAwaits (hFresh _ rfl) hVisits hFine hMeets
  | hidden => rfl
  | interrupted => rfl
  | @failed _ _ _ fault hFault =>
    cases fault with
    | interrupted => exact absurd rfl hFault
    | failed reason text =>
      exact congrArg (Course.Progress.mk · none) (p.course_count now Course.countFailed)
  | leave => rfl

/-! ## What still waits -/

theorem Awaits.submits {queue : Queue.Progress} (h : p.Awaits now done)
    (hSubmits : p.queue.Submits now calls queue after) :
    { p with queue := queue.queue : Pass }.Awaits after done where
  sound := by
    cases hSubmits with
    | waits => exact h.sound
    | lost hSome => exact h.sound
    | refused hSome hOther => exact h.sound
    | applied hSome hApply => exact (h.sound.effects_applyAll hApply).sound h.sound
  waiting op hOp := by
    apply h.waiting op
    rw [← hSubmits.operations_append]
    exact List.mem_append_right _ hOp

theorem Awaits.append (h : p.Awaits now done) (later : List Attributes) :
    p.Awaits now (done ++ later) where
  sound := h.sound
  waiting op hOp := by
    obtain ⟨record, rfl, b, hb, hPath⟩ := h.waiting op hOp
    exact ⟨record, rfl, b, List.mem_append_left later hb, hPath⟩

theorem Awaits.visits (h : p.Awaits now done) (hVisits : Visits t a p now calls progress after) :
    progress.pass.Awaits after (done ++ [a]) := by
  have hLater := h.append [a]
  cases hVisits with
  | unanswered => exact ⟨hLater.sound, hLater.waiting⟩
  | kept hKept =>
    exact ⟨hLater.sound, fun op hOp => hLater.waiting op (Queue.pending_mark _ _ ▸ hOp)⟩
  | unreadable hPassed hFault => exact ⟨hLater.sound, hLater.waiting⟩
  | passed hPassed hRead => exact ⟨hLater.sound, hLater.waiting⟩
  | @taken _ _ _ _ _ record hTaken hEnqueues =>
    obtain ⟨queue, hSubmits, hQueue, -⟩ := hEnqueues.submits
    have hBehind : { p with queue := p.queue.behind (.upsert record) : Pass }.Awaits now
        (done ++ [a]) := by
      refine ⟨hLater.sound, fun op hOp => ?_⟩
      rcases List.mem_append.mp hOp with hOp | hOp
      · exact hLater.waiting op hOp
      · exact ⟨record, List.mem_singleton.mp hOp, a, by simp, pathOf_of_taken hTaken⟩
    have hAfter := hBehind.submits hSubmits
    exact ⟨hAfter.sound, fun op hOp => hAfter.waiting op (hQueue ▸ hOp)⟩

theorem Awaits.observes {event : Event} (h : p.Awaits now done)
    (hObserves : Observes t event p now calls progress after) :
    progress.pass.Awaits after (done ++ event.visited?.toList) := by
  have hLater := h.append event.visited?.toList
  cases hObserves with
  | visit hVisits => exact h.visits hVisits
  | hidden => exact hLater
  | interrupted => exact hLater
  | failed hFault => exact ⟨hLater.sound, hLater.waiting⟩
  | leave => exact hLater

/-! ## Queries so far -/

theorem visited_of_visits (h : Visits t a p now calls progress after)
    (hGoing : progress.failure = none) :
    progress.pass.tally.visited = p.tally.visited + queries calls := by
  cases h with
  | unanswered => cases hGoing
  | kept hKept => rfl
  | unreadable hPassed hFault => cases hGoing
  | passed hPassed hRead => rfl
  | @taken _ _ _ rest _ record hTaken hEnqueues =>
    cases hEnqueues with
    | @intro _ _ _ _ queue hSubmits =>
      have hNone : queue.failure = none := by
        rwa [failure_resumed, Option.map_eq_none_iff] at hGoing
      have hQueries : queries (.lookup p.volume a.path (.ok (now.lookup p.volume a.path)) :: rest) =
          queries rest + 1 := rfl
      rw [resumed_of_none hNone, hQueries, queries_of_submits hSubmits]
      rfl

theorem visited_of_observes {event : Event} (h : Observes t event p now calls progress after)
    (hGoing : progress.failure = none) :
    progress.pass.tally.visited = p.tally.visited + queries calls := by
  cases h with
  | visit hVisits => exact visited_of_visits hVisits hGoing
  | interrupted => cases hGoing
  | _ => rfl

/-! ## The whole walk -/

theorem course_of_observed {events : List Event} (hAwaits : p.Awaits now done)
    (hDistinct : ((done ++ events.filterMap Event.visited?).map (·.path.text)).Nodup)
    (h : Observed t events p now calls progress after) (hFine : NoneFails calls)
    (hMeets : Meets faults p.tally.visited calls) :
    progress.course after = Course.observeAll t faults events (p.course now) ∧
      (progress.failure = none →
        progress.pass.tally.visited = p.tally.visited + queries calls) := by
  -- What waits are records of the entries visited so far, and no entry to come has their paths.
  induction events generalizing done p now calls with
  | nil =>
    cases h
    exact ⟨rfl, fun _ => rfl⟩
  | cons event events ih =>
    have hFresh := not_mem_of_nodup_visited hDistinct
    cases h with
    | stopped hFirst =>
      refine ⟨?_, fun hGoing => by cases hGoing⟩
      rw [Course.observeAll, ← course_of_observes hAwaits hFresh hFirst hFine hMeets]
      rfl
    | @going _ p' _ between _ first rest _ hFirst hRest =>
      obtain ⟨hFineFirst, hFineRest⟩ := List.forall_mem_append.mp hFine
      obtain ⟨hMeetsFirst, hMeetsRest⟩ := meets_append.mp hMeets
      have hVisited : p'.tally.visited = p.tally.visited + queries first :=
        visited_of_observes hFirst rfl
      rw [visited_cons, ← List.append_assoc] at hDistinct
      rw [← hVisited] at hMeetsRest
      obtain ⟨hCourse, hCount⟩ := ih (hAwaits.observes hFirst) hDistinct hRest hFineRest hMeetsRest
      refine ⟨?_, fun hGoing => ?_⟩
      · rw [hCourse, Course.observeAll,
          ← course_of_observes hAwaits hFresh hFirst hFineFirst hMeetsFirst]
        rfl
      · rw [hCount hGoing, hVisited, queries_append, Nat.add_assoc]

/-! ## The sweep -/

def OnlyDeletes (p : Pass) : Prop := ∀ op ∈ p.queue.pending, ∃ id, op = .delete id

theorem OnlyDeletes.mem_scanned (h : p.OnlyDeletes) (id : Int) :
    id ∈ (p.course now).scanned ↔ id ∈ p.queue.scanned := by
  rw [course, Course.scanned_foldl_perform h, stored, List.mem_toFinset]

theorem OnlyDeletes.cleans {id : Int} (h : p.OnlyDeletes)
    (hCleans : Cleans id p now calls progress after) : progress.pass.OnlyDeletes := by
  cases hCleans with
  | confirmed hScanned => exact h
  | stray hStray hEnqueues =>
    obtain ⟨queue, hSubmits, hQueue, -⟩ := hEnqueues.submits
    intro op hOp
    rw [hQueue] at hOp
    have hMem : op ∈ p.queue.pending ++ [.delete id] := by
      have hAll := List.mem_append_right (operations calls) hOp
      rwa [hSubmits.operations_append] at hAll
    rcases List.mem_append.mp hMem with hMem | hMem
    · exact h op hMem
    · exact ⟨id, List.mem_singleton.mp hMem⟩

theorem course_of_cleans {id : Int} (hDeletes : p.OnlyDeletes)
    (h : Cleans id p now calls progress after) (hFine : NoneFails calls) :
    progress.course after = ⟨(p.course now).clean id, none⟩ := by
  cases h with
  | confirmed hScanned =>
    rw [Course.clean, if_pos ((hDeletes.mem_scanned id).mpr hScanned)]
    rfl
  | stray hStray hEnqueues =>
    rw [Course.clean, if_neg fun hMem => hStray ((hDeletes.mem_scanned id).mp hMem),
      course_of_enqueues hEnqueues hFine]

theorem course_of_cleaned {ids : List Int} (hDeletes : p.OnlyDeletes)
    (h : Cleaned ids p now calls progress after) (hFine : NoneFails calls) :
    progress.course after = ⟨ids.foldl Course.clean (p.course now), none⟩ := by
  induction ids generalizing p now calls with
  | nil =>
    cases h
    rfl
  | cons id ids ih =>
    cases h with
    | stopped hFirst =>
      cases congrArg Course.Progress.failure (course_of_cleans hDeletes hFirst hFine)
    | @going _ p' _ between _ _ _ _ hFirst hRest =>
      obtain ⟨hFineFirst, hFineRest⟩ := List.forall_mem_append.mp hFine
      have hCourse : p'.course between = (p.course now).clean id :=
        congrArg Course.Progress.course (course_of_cleans hDeletes hFirst hFineFirst)
      rw [ih (hDeletes.cleans hFirst) hRest hFineRest, List.foldl_cons, ← hCourse]

theorem course_of_sweeps (hEmpty : p.queue.pending = [])
    (h : Sweeps p now calls progress after) (hFine : NoneFails calls)
    (hMeets : Meets faults p.tally.visited calls) :
    progress.course after = (p.course now).sweep faults ∧ progress.pass.queue.pending = [] := by
  obtain ⟨hRoot, hVolume, -, -, hTally⟩ := p.setting_course now
  have hTable : (p.course now).table = now.undated := by rw [course_of_pending_nil hEmpty]; rfl
  have hDeletes : p.OnlyDeletes := by
    intro op hOp
    rw [hEmpty] at hOp
    cases hOp
  rw [Course.sweep, hRoot, hVolume, hTally, hTable, Table.idsUnder_undated]
  cases h with
  | unanswered =>
    rw [← hMeets.1]
    exact ⟨rfl, hEmpty⟩
  | answered hRest =>
    rw [← hMeets.1]
    obtain ⟨-, hFine⟩ := List.forall_mem_cons.mp hFine
    cases hRest with
    | stopped hCleaned =>
      cases congrArg Course.Progress.failure (course_of_cleaned hDeletes hCleaned hFine)
    | @going _ p' _ between _ _ _ _ hCleaned hFlushes =>
      obtain ⟨hFineCleaned, hFineFlushes⟩ := List.forall_mem_append.mp hFine
      have hCourse : p'.course between = (now.idsUnder p.volume p.root).foldl Course.clean
          (p.course now) :=
        congrArg Course.Progress.course (course_of_cleaned hDeletes hCleaned hFineCleaned)
      obtain ⟨-, -, -, -, hAfter⟩ := hFlushes.submits
      rw [course_of_flushes hFlushes hFineFlushes, hCourse]
      exact ⟨rfl, hAfter⟩

/-! ## The whole pass -/

theorem course_of_finishes (hEmpty : p.queue.pending = [])
    (h : Finishes p now calls progress after) (hFine : NoneFails calls)
    (hMeets : Meets faults p.tally.visited calls) :
    progress.course after = (p.course now).finish faults ∧ progress.pass.queue.pending = [] := by
  rw [Course.finish, ← course_phase hEmpty]
  exact course_of_sweeps hEmpty h hFine hMeets

theorem course_of_explores (hTree : t.WellFormed) (hRoot : p.root.IsAbsolute) (hNow : now.Sound)
    (hEmpty : p.queue.pending = [])
    (h : Explores t { p with phase := .walking } now calls progress after)
    (hFine : NoneFails calls) (hMeets : Meets faults p.tally.visited calls) :
    progress.course after = (p.course now).explore t faults ∧
      (progress.failure = none → progress.pass.queue.pending = [] ∧
        progress.pass.tally.visited = p.tally.visited + queries calls) := by
  have hAwaits : { p with phase := .walking : Pass }.Awaits now [] :=
    ⟨hNow, fun op hOp => by rw [hEmpty] at hOp; cases hOp⟩
  have hDistinct := Walk.nodup_visits_texts hTree hRoot
  rw [Course.explore, ← course_phase hEmpty, (p.setting_course now).1]
  cases h with
  | stopped hObserved =>
    exact ⟨(course_of_observed hAwaits hDistinct hObserved hFine hMeets).1,
      fun hGoing => by cases hGoing⟩
  | going hObserved hFlushes =>
    obtain ⟨hFineWalk, hFineFlush⟩ := List.forall_mem_append.mp hFine
    obtain ⟨hMeetsWalk, -⟩ := meets_append.mp hMeets
    obtain ⟨hCourse, hVisited⟩ :=
      course_of_observed hAwaits hDistinct hObserved hFineWalk hMeetsWalk
    obtain ⟨hAfter, hTally, hNoQuery⟩ := hFlushes.leaves
    rw [course_of_flushes hFlushes hFineFlush, ← hCourse, hTally, queries_append, hNoQuery]
    exact ⟨rfl, fun _ => ⟨hAfter, hVisited rfl⟩⟩

/-- A pass none of whose batches fails comes as far as one that lets nothing wait, and ends as it
does. Only if its walk is stopped is there something left waiting. -/
theorem course_of_runs {size : Int} (hTree : t.WellFormed) (hRoot : p.root.IsAbsolute)
    (hNew : p.IsNew size) (hNow : now.Sound) (h : Runs t p now calls progress after)
    (hFine : NoneFails calls) (hMeets : Meets faults 0 calls) :
    progress.course after = (p.course now).run t faults (p.isHidden t) ∧
      (progress.pass.phase ≠ .walking → progress.pass.queue.pending = []) := by
  have hEmpty : p.queue.pending = [] := by
    rw [hNew.queue]
    rfl
  have hStart : p.tally.visited = 0 := by
    rw [hNew.tally]
    rfl
  rw [← hStart] at hMeets
  cases h with
  | unseen hHidden =>
    rw [hHidden]
    exact ⟨rfl, fun _ => hEmpty⟩
  | hidden hHidden hFinishes =>
    rw [hHidden]
    obtain ⟨hCourse, hAfter⟩ := course_of_finishes hEmpty hFinishes hFine hMeets
    exact ⟨hCourse, fun _ => hAfter⟩
  | walked hHidden hRest =>
    rw [hHidden, Course.run]
    cases hRest with
    | @stopped _ p' _ _ _ failure hExplores =>
      obtain ⟨hCourse, -⟩ := course_of_explores hTree hRoot hNow hEmpty hExplores hFine hMeets
      rw [← hCourse]
      refine ⟨rfl, fun hPhase => absurd ?_ hPhase⟩
      have hStopped : p'.course after = ((p.course now).explore t faults).course :=
        congrArg Course.Progress.course hCourse
      rw [← (p'.setting_course after).2.2.2.1, hStopped, Course.explore, Course.phase_observeAll]
    | @going _ p' _ between _ first rest _ hExplores hFinishes =>
      obtain ⟨hFineWalk, hFineSweep⟩ := List.forall_mem_append.mp hFine
      obtain ⟨hMeetsWalk, hMeetsSweep⟩ := meets_append.mp hMeets
      obtain ⟨hCourse, hDone⟩ :=
        course_of_explores hTree hRoot hNow hEmpty hExplores hFineWalk hMeetsWalk
      obtain ⟨hWalked, hVisited⟩ := hDone rfl
      rw [← hVisited] at hMeetsSweep
      obtain ⟨hSwept, hAfter⟩ := course_of_finishes hWalked hFinishes hFineSweep hMeetsSweep
      rw [← hCourse]
      exact ⟨hSwept, fun _ => hAfter⟩

end Pass

end MediaIndex.Reconcile
