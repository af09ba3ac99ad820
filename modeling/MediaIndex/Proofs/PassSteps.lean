import MediaIndex.Proofs.QueueSteps
import MediaIndex.Proofs.Standing
import MediaIndex.Reconcile.Pass

/-!
# Steps of a pass

All that can come of a pass, stage by stage: the calls it makes, the pass after it with the failure
that stopped it, and the table. A visit is told by the standing of the entry, the rest by what the
walk reports and by the numbers that the catalog tells. Every law of a pass is read off these
relations, not off its dialogue.
-/

namespace MediaIndex.Reconcile.Pass

open Catalog (Operation Record Store StoreFault Table)
open Disk (Attributes Fault Tree)
open Walk (Event)

/-- One stage of a pass: where it may come to from a pass at a table. -/
abbrev Stage := Pass → Table → List Call → Progress → Table → Prop

/-- The dialogue does what the stage allows. -/
def Follows (d : Pass → Dialogue Progress) (stage : Stage) : Prop :=
  ∀ (p : Pass) (s : Store) (now : Table), s.contents = .table now →
    (d p).Ensures s fun calls progress s' =>
      ∃ after, s'.contents = .table after ∧ stage p now calls progress after

inductive Stage.andThen (first second : Stage) : Stage
  | stopped {p p' : Pass} {now after : Table} {calls : List Call} {failure : Failure}
      (h : first p now calls ⟨p', some failure⟩ after) :
      andThen first second p now calls ⟨p', some failure⟩ after
  | going {p p' : Pass} {now between after : Table} {calls more : List Call} {progress : Progress}
      (h : first p now calls ⟨p', none⟩ between)
      (hRest : second p' between more progress after) :
      andThen first second p now (calls ++ more) progress after

theorem Follows.andThen {d e : Pass → Dialogue Progress} {first second : Stage}
    (h : Follows d first) (h' : Follows e second) :
    Follows (fun p => Progress.andThen (d p) e) (first.andThen second) := by
  intro p s now hs
  refine Dialogue.ensures_andThen.mpr ((h p s now hs).mono ?_)
  rintro calls ⟨p', failure⟩ s' ⟨between, hContents, hFirst⟩
  cases failure with
  | none =>
    apply (h' p' s' between hContents).mono
    rintro more progress s'' ⟨after, hAfter, hSecond⟩
    exact ⟨after, hAfter, .going hFirst hSecond⟩
  | some failure =>
    refine Dialogue.ensures_finish.mpr ⟨between, hContents, ?_⟩
    rw [List.append_nil]
    exact .stopped hFirst

/-- Nothing is done. -/
inductive Idle : Stage
  | intro {p : Pass} {now : Table} : Idle p now [] ⟨p, none⟩ now

theorem follows_going : Follows going Idle := by
  intro p s now hs
  exact ⟨now, hs, .intro⟩

/-! ## The queue of a pass -/

/-- A pass with what became of its queue; what is queued is counted unless that stops the pass. -/
def resumed (p : Pass) (progress : Queue.Progress) (count : Tally → Tally) : Progress :=
  match progress.failure with
  | none => ⟨{ p with queue := progress.queue, tally := count p.tally }, none⟩
  | some failure => ⟨{ p with queue := progress.queue }, some (.catalog failure)⟩

inductive Enqueues (op : Operation) (count : Tally → Tally) : Stage
  | intro {p : Pass} {now after : Table} {calls : List Call} {progress : Queue.Progress}
      (h : (p.queue.behind op).Submits now calls progress after) :
      Enqueues op count p now calls (p.resumed progress count) after

theorem follows_enqueue (op : Operation) (count : Tally → Tally) :
    Follows (fun p => p.enqueue op count) (Enqueues op count) := by
  intro p s now hs
  refine Dialogue.ensures_andThen.mpr ((Queue.ensures_add hs op).mono ?_)
  rintro calls ⟨queue, failure⟩ s' ⟨after, hContents, hSubmits⟩
  cases failure <;>
  · refine Dialogue.ensures_finish.mpr ⟨after, hContents, ?_⟩
    rw [List.append_nil]
    exact .intro hSubmits

inductive Flushes : Stage
  | intro {p : Pass} {now after : Table} {calls : List Call} {progress : Queue.Progress}
      (h : p.queue.Submits now calls progress after) (hEmpty : progress.queue.pending = []) :
      Flushes p now calls (p.resumed progress id) after

theorem follows_flush : Follows flush Flushes := by
  intro p s now hs
  refine Dialogue.ensures_andThen.mpr ((Queue.ensures_flush hs).mono ?_)
  rintro calls ⟨queue, failure⟩ s' ⟨after, hContents, hSubmits, hEmpty⟩
  cases failure <;>
  · refine Dialogue.ensures_finish.mpr ⟨after, hContents, ?_⟩
    rw [List.append_nil]
    exact .intro hSubmits hEmpty

/-! ## The walk -/

def visiting (p : Pass) : Pass :=
  { p with tally := { p.tally with visited := p.tally.visited + 1 } }

def confirming (p : Pass) (id : Int) : Pass :=
  { p with
    queue := p.queue.mark id
    tally := { p.tally with unchanged := p.tally.unchanged + 1 } }

def countQueued (tally : Tally) : Tally := { tally with queued := tally.queued + 1 }

/-- What may come of a visit. -/
inductive Visits (t : Tree) (a : Attributes) : Stage
  | unanswered {p : Pass} {now : Table} {fault : StoreFault} :
      Visits t a p now [.lookup p.volume a.path (.error fault)]
        ⟨p.visiting, some (.walk p.root (.lookup a.path fault))⟩ now
  | kept {p : Pass} {now : Table} {entry : Catalog.Entry}
      (h : standing t p.volume now a = .kept entry) :
      Visits t a p now [.lookup p.volume a.path (.ok (now.lookup p.volume a.path))]
        ⟨p.visiting.confirming entry.id, none⟩ now
  | unreadable {p : Pass} {now : Table} {fault : Fault}
      (h : standing t p.volume now a = .passed)
      (hFault : Media.takeIn t p.told a p.volume = .error fault) :
      Visits t a p now [.lookup p.volume a.path (.ok (now.lookup p.volume a.path))]
        ⟨p.visiting, some (.disk fault)⟩ now
  | passed {p : Pass} {now : Table} (h : standing t p.volume now a = .passed)
      (hRead : ∀ fault, Media.takeIn t p.told a p.volume ≠ .error fault) :
      Visits t a p now [.lookup p.volume a.path (.ok (now.lookup p.volume a.path))]
        ⟨p.visiting, none⟩ now
  | taken {p : Pass} {now after : Table} {calls : List Call} {progress : Progress}
      {record : Record} (h : standing t p.volume now a = .taken record)
      (hEnqueues : Enqueues (.upsert record) countQueued p.visiting now calls progress after) :
      Visits t a p now (.lookup p.volume a.path (.ok (now.lookup p.volume a.path)) :: calls)
        progress after

theorem follows_visit (t : Tree) (a : Attributes) :
    Follows (fun p => p.visit t a) (Visits t a) := by
  intro p s now hs
  simp only [visit, Dialogue.ensures_lookup]
  cases hReply : (s.lookup p.volume a.path).1 with
  | error fault => exact ⟨now, hs, .unanswered⟩
  | ok found =>
    obtain rfl := query_eq_ok hs hReply
    rcases standing_cases t p.volume now a with ⟨entry, hFresh, hKept⟩ | ⟨hFresh, hStanding⟩
    · simp only [hFresh]
      exact ⟨now, hs, .kept hKept⟩
    · have hOther : freshness a (now.lookup p.volume a.path) = .stale ∨
          freshness a (now.lookup p.volume a.path) = .new := by
        cases hCase : freshness a (now.lookup p.volume a.path) with
        | unchanged entry => exact absurd hCase (hFresh entry)
        | stale => exact .inl rfl
        | new => exact .inr rfl
      rcases hOther with hOther | hOther <;> simp only [hOther]
      all_goals
        cases hTake : Media.takeIn t p.told a p.volume with
        | error fault =>
          have hNone : Media.recordOf? t a p.volume = none := by
            rw [Media.recordOf?, Media.takeIn_eq_error_iff.mp hTake]
          exact ⟨now, hs, .unreadable (by rw [hStanding, hNone]) hTake⟩
        | ok intake =>
          have hRecord := Media.record_of_takeIn hTake
          rw [← hRecord] at hStanding
          simp only [Dialogue.ensures_tellAll]
          cases hIntake : intake.record with
          | none =>
            rw [hIntake] at hStanding
            exact ⟨now, hs, .passed hStanding (by simp [hTake])⟩
          | some record =>
            rw [hIntake] at hStanding
            refine (follows_enqueue (.upsert record) countQueued p.visiting
              (s.lookup p.volume a.path).2 now hs).mono ?_
            rintro calls progress s' ⟨after, hContents, hEnqueues⟩
            exact ⟨after, hContents, .taken hStanding hEnqueues⟩

inductive Observes (t : Tree) : Event → Stage
  | visit {p : Pass} {now after : Table} {calls : List Call} {progress : Progress} {a : Attributes}
      (h : Visits t a p now calls progress after) : Observes t (.visit a) p now calls progress after
  | hidden {p : Pass} {now : Table} {path : Path} : Observes t (.hidden path) p now [] ⟨p, none⟩ now
  | interrupted {p : Pass} {now : Table} {path : Path} :
      Observes t (.failed path .interrupted) p now [] ⟨p, some (.disk .interrupted)⟩ now
  | failed {p : Pass} {now : Table} {path : Path} {fault : Fault} (h : fault ≠ .interrupted) :
      Observes t (.failed path fault) p now []
        ⟨{ p with tally := { p.tally with failed := p.tally.failed + 1 } }, none⟩ now
  | leave {p : Pass} {now : Table} {path : Path} : Observes t (.leave path) p now [] ⟨p, none⟩ now

theorem follows_observe (t : Tree) (event : Event) :
    Follows (fun p => p.observe t event) (Observes t event) := by
  intro p s now hs
  cases event with
  | visit a =>
    apply (follows_visit t a p s now hs).mono
    rintro calls progress s' ⟨after, hContents, hVisits⟩
    exact ⟨after, hContents, .visit hVisits⟩
  | hidden path => exact ⟨now, hs, .hidden⟩
  | failed path fault =>
    cases fault with
    | failed r text => exact ⟨now, hs, .failed (by simp)⟩
    | interrupted => exact ⟨now, hs, .interrupted⟩
  | leave path => exact ⟨now, hs, .leave⟩

def Observed (t : Tree) : List Event → Stage
  | [] => Idle
  | event :: events => (Observes t event).andThen (Observed t events)

theorem follows_observeAll (t : Tree) (events : List Event) :
    Follows (observeAll t events) (Observed t events) := by
  induction events with
  | nil => exact follows_going
  | cons event events ih => exact (follows_observe t event).andThen ih

def Explores (t : Tree) : Stage :=
  fun p => ((Observed t (Walk.walk t p.root)).andThen Flushes) p

theorem follows_explore (t : Tree) : Follows (explore t) (Explores t) := by
  intro p
  exact (follows_observeAll t (Walk.walk t p.root)).andThen follows_flush p

/-! ## The sweep -/

def countDeleted (tally : Tally) : Tally := { tally with deleted := tally.deleted + 1 }

inductive Cleans (id : Int) : Stage
  | confirmed {p : Pass} {now : Table} (h : id ∈ p.queue.scanned) : Cleans id p now [] ⟨p, none⟩ now
  | stray {p : Pass} {now after : Table} {calls : List Call} {progress : Progress}
      (h : id ∉ p.queue.scanned)
      (hEnqueues : Enqueues (.delete id) countDeleted p now calls progress after) :
      Cleans id p now calls progress after

def Cleaned : List Int → Stage
  | [] => Idle
  | id :: ids => (Cleans id).andThen (Cleaned ids)

theorem follows_clean (ids : List Int) : Follows (clean ids) (Cleaned ids) := by
  induction ids with
  | nil => exact follows_going
  | cons id ids ih =>
    intro p s now hs
    by_cases hScanned : id ∈ p.queue.scanned
    · rw [clean, if_pos hScanned]
      apply (ih p s now hs).mono
      rintro calls progress s' ⟨after, hContents, hCleaned⟩
      refine ⟨after, hContents, ?_⟩
      rw [← List.nil_append calls]
      exact .going (.confirmed hScanned) hCleaned
    · rw [clean, if_neg hScanned, Dialogue.ensures_tell]
      apply ((follows_enqueue (.delete id) countDeleted).andThen ih p s now hs).mono
      rintro calls progress s' ⟨after, hContents, hEnqueues⟩
      refine ⟨after, hContents, ?_⟩
      cases hEnqueues with
      | stopped h => exact .stopped (.stray hScanned h)
      | going h hRest => exact .going (.stray hScanned h) hRest

inductive Sweeps : Stage
  | unanswered {p : Pass} {now : Table} {fault : StoreFault} :
      Sweeps p now [.idsUnder p.volume p.root (.error fault)]
        ⟨p, some (.cleanup p.root (.range p.root fault))⟩ now
  | answered {p : Pass} {now after : Table} {calls : List Call} {progress : Progress}
      (h : ((Cleaned (now.idsUnder p.volume p.root)).andThen Flushes) p now calls progress after) :
      Sweeps p now (.idsUnder p.volume p.root (.ok (now.idsUnder p.volume p.root)) :: calls)
        progress after

theorem follows_sweep : Follows sweep Sweeps := by
  intro p s now hs
  simp only [sweep, Dialogue.ensures_idsUnder]
  cases hReply : (s.idsUnder p.volume p.root).1 with
  | error fault => exact ⟨now, hs, .unanswered⟩
  | ok ids =>
    obtain rfl := query_eq_ok hs hReply
    refine ((follows_clean (now.idsUnder p.volume p.root)).andThen follows_flush p
      (s.idsUnder p.volume p.root).2 now hs).mono ?_
    rintro calls progress s' ⟨after, hContents, hRest⟩
    exact ⟨after, hContents, .answered hRest⟩

def Finishes : Stage :=
  fun p => Sweeps { p with phase := .sweeping }

theorem follows_finish : Follows finish Finishes := by
  intro p s now hs
  refine Dialogue.ensures_andThen.mpr
    ((follows_sweep { p with phase := .sweeping } s now hs).mono ?_)
  rintro calls ⟨p', failure⟩ s' ⟨after, hContents, hSweeps⟩
  cases failure with
  | none =>
    refine Dialogue.ensures_tell.mpr (Dialogue.ensures_finish.mpr ⟨after, hContents, ?_⟩)
    rw [List.append_nil]
    exact hSweeps
  | some failure =>
    refine Dialogue.ensures_finish.mpr ⟨after, hContents, ?_⟩
    rw [List.append_nil]
    exact hSweeps

/-! ## The whole pass -/

/-- What may come of a pass that did not run before. -/
inductive Runs (t : Tree) : Stage
  | unseen {p : Pass} {now : Table} {fault : Fault} (h : p.isHidden t = .error fault) :
      Runs t p now [] ⟨p, some (.disk fault)⟩ now
  | hidden {p : Pass} {now after : Table} {calls : List Call} {progress : Progress}
      (h : p.isHidden t = .ok true) (hFinishes : Finishes p now calls progress after) :
      Runs t p now calls progress after
  | walked {p : Pass} {now after : Table} {calls : List Call} {progress : Progress}
      (h : p.isHidden t = .ok false)
      (hRest : ((Explores t).andThen Finishes) { p with phase := .walking } now calls progress
        after) :
      Runs t p now calls progress after

theorem ensures_run {t : Tree} {p : Pass} {s : Store} {now : Table} (hs : s.contents = .table now)
    (hNew : p.phase = .notStarted) :
    (p.run t).Ensures s fun calls progress s' =>
      ∃ after, s'.contents = .table after ∧ Runs t p now calls progress after := by
  rw [run, if_neg (not_not_intro hNew)]
  cases hHidden : p.isHidden t with
  | error fault => exact ⟨now, hs, .unseen hHidden⟩
  | ok isHidden =>
    cases isHidden with
    | true =>
      refine Dialogue.ensures_tell.mpr ((follows_finish p s now hs).mono ?_)
      rintro calls progress s' ⟨after, hContents, hFinishes⟩
      exact ⟨after, hContents, .hidden hHidden hFinishes⟩
    | false =>
      apply ((follows_explore t).andThen follows_finish _ s now hs).mono
      rintro calls progress s' ⟨after, hContents, hRest⟩
      exact ⟨after, hContents, .walked hHidden hRest⟩

theorem run_of_walk {t : Tree} {p : Pass} {events : List Event} (hNew : p.phase = .notStarted)
    (hVisible : p.isHidden t = .ok false) (hWalk : Walk.walk t p.root = events) :
    p.run t = Progress.andThen
      (.tell (.debug ("Walking " ++ p.root.text ++ " (volume=" ++ p.volume ++ ")"))
        (Progress.andThen (observeAll t events { p with phase := .walking }) flush)) finish := by
  rw [run, if_neg (not_not_intro hNew), hVisible, ← hWalk]
  rfl

/-! ## The queue after a stage -/

theorem queue_resumed (p : Pass) (queue : Queue.Progress) (count : Tally → Tally) :
    (p.resumed queue count).pass.queue = queue.queue := by
  unfold resumed
  split <;> rfl

theorem failure_resumed (p : Pass) (queue : Queue.Progress) (count : Tally → Tally) :
    (p.resumed queue count).failure = queue.failure.map .catalog := by
  unfold resumed
  split <;> simp_all

theorem Enqueues.submits {op : Operation} {count : Tally → Tally} {p : Pass} {now after : Table}
    {calls : List Call} {progress : Progress} (h : Enqueues op count p now calls progress after) :
    ∃ queue : Queue.Progress, (p.queue.behind op).Submits now calls queue after ∧
      progress.pass.queue = queue.queue ∧ progress.failure = queue.failure.map .catalog := by
  cases h with
  | intro hSubmits => exact ⟨_, hSubmits, queue_resumed p _ count, failure_resumed p _ count⟩

theorem Flushes.submits {p : Pass} {now after : Table} {calls : List Call} {progress : Progress}
    (h : Flushes p now calls progress after) :
    ∃ queue : Queue.Progress, p.queue.Submits now calls queue after ∧
      progress.pass.queue = queue.queue ∧ progress.failure = queue.failure.map .catalog ∧
      progress.pass.queue.pending = [] := by
  cases h with
  | intro hSubmits hEmpty =>
    exact ⟨_, hSubmits, queue_resumed p _ id, failure_resumed p _ id,
      by rw [queue_resumed, hEmpty]⟩

/-! ## What no stage changes -/

/-- The later pass is over the same root. -/
structure Continues (p p' : Pass) : Prop where
  root : p'.root = p.root
  volume : p'.volume = p.volume

theorem Continues.refl (p : Pass) : p.Continues p := ⟨rfl, rfl⟩

theorem Continues.trans {p p' p'' : Pass} (h : p.Continues p') (h' : p'.Continues p'') :
    p.Continues p'' :=
  ⟨h'.root.trans h.root, h'.volume.trans h.volume⟩

theorem continues_visiting (p : Pass) : p.Continues p.visiting := ⟨rfl, rfl⟩

variable {p : Pass} {now after : Table} {calls : List Call} {progress : Progress}

theorem continues_resumed (p : Pass) (queue : Queue.Progress) (count : Tally → Tally) :
    p.Continues (p.resumed queue count).pass := by
  unfold resumed
  split <;> exact ⟨rfl, rfl⟩

theorem Enqueues.continues {op : Operation} {count : Tally → Tally}
    (h : Enqueues op count p now calls progress after) : p.Continues progress.pass := by
  cases h with
  | intro h => exact continues_resumed p _ count

theorem Flushes.continues (h : Flushes p now calls progress after) : p.Continues progress.pass := by
  cases h with
  | intro h hEmpty => exact continues_resumed p _ id

theorem Visits.continues {t : Tree} {a : Attributes} (h : Visits t a p now calls progress after) :
    p.Continues progress.pass := by
  cases h with
  | unanswered => exact continues_visiting p
  | kept h => exact ⟨rfl, rfl⟩
  | unreadable h hFault => exact continues_visiting p
  | passed h hRead => exact continues_visiting p
  | taken h hEnqueues => exact (continues_visiting p).trans hEnqueues.continues

theorem Observes.continues {t : Tree} {event : Event}
    (h : Observes t event p now calls progress after) : p.Continues progress.pass := by
  cases h with
  | visit h => exact h.continues
  | hidden => exact .refl p
  | interrupted => exact .refl p
  | failed h => exact ⟨rfl, rfl⟩
  | leave => exact .refl p

theorem Observed.continues {t : Tree} {events : List Event}
    (h : Observed t events p now calls progress after) : p.Continues progress.pass := by
  induction events generalizing p now calls with
  | nil =>
    cases h
    exact .refl p
  | cons event events ih =>
    cases h with
    | stopped h => exact h.continues
    | going h hRest => exact h.continues.trans (ih hRest)

theorem Explores.continues {t : Tree} (h : Explores t p now calls progress after) :
    p.Continues progress.pass := by
  cases h with
  | stopped h => exact h.continues
  | going h hRest => exact h.continues.trans hRest.continues

end MediaIndex.Reconcile.Pass
