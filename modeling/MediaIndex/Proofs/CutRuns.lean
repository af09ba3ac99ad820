import MediaIndex.Proofs.BatchEffects
import MediaIndex.Proofs.Failures

/-!
# Runs that are cut off

A table after a dialogue is the one before it with the effects of the batches that were applied, in
order, whatever else was called. A stage of a pass makes no further call once a query is not
answered or a batch is refused, so what it did up to there is the beginning of what it does if the
catalog answers every query. How a stage ends, and in which phase, is told along with this.
-/

namespace MediaIndex.Reconcile

open Catalog (Operation Store Table)

/-! ## The effects of batches -/

def batches (calls : List Call) : List Call := calls.filter (·.isBatch)

/-- What batches make of a table, each as a whole or not at all. A batch writes the time that the
clock has, and the clock goes on with every batch. -/
inductive Replays : Nat → Table → List Call → Table → Prop where
  | nil {clock : Nat} {t : Table} : Replays clock t [] t
  | failed {clock : Nat} {before after : Table} {ops : List Operation} {cause : Catalog.Failure}
      {calls : List Call} (hRest : Replays (clock + 1) before calls after) :
      Replays clock before (.submit ops (.error cause) :: calls) after
  | applied {clock : Nat} {before between after : Table} {ops : List Operation}
      {ids : List (Option Int)} {calls : List Call}
      (hEffects : Table.Effects (isoText clock) before ops ids between)
      (hRest : Replays (clock + 1) between calls after) :
      Replays clock before (.submit ops (.ok ids) :: calls) after

theorem clock_submit (s : Store) (ops : List Operation) :
    (s.submit ops).2.clock = s.clock + 1 := by
  rw [Store.submit]
  cases s.batch ops <;> rfl

theorem replays_run {α : Type} (d : Dialogue α) {s : Store} {before : Table}
    (hs : s.contents = .table before) (hBefore : before.Sound) :
    ∃ after, (d.run s).store.contents = .table after ∧
      Replays s.clock before (batches (d.calls s)) after := by
  induction d generalizing s before with
  | finish a => exact ⟨before, hs, .nil⟩
  | tell note next ih => exact ih hs hBefore
  | lookup volume path next ih =>
    exact ih (s.lookup volume path).1 (s := (s.lookup volume path).2) hs hBefore
  | idsUnder volume root next ih =>
    exact ih (s.idsUnder volume root).1 (s := (s.idsUnder volume root).2) hs hBefore
  | submit ops next ih =>
    rw [Dialogue.calls_submit, batches, List.filter_cons_of_pos rfl]
    have hClock := clock_submit s ops
    cases hReply : (s.submit ops).1 with
    | error cause =>
      have hContents := (Store.contents_of_submit_eq_error hReply).trans hs
      obtain ⟨after, hAfter, hReplays⟩ := ih (s.submit ops).1 hContents hBefore
      rw [hReply, hClock] at hReplays
      exact ⟨after, hAfter, .failed hReplays⟩
    | ok ids =>
      obtain ⟨contents, hBatch⟩ := Store.submit_eq_ok_iff.mp hReply
      obtain ⟨between, rfl, hAll⟩ := batch_eq_ok hs hBatch
      have hEffects := hBefore.effects_applyAll hAll
      obtain ⟨after, hAfter, hReplays⟩ := ih (s.submit ops).1
        (Store.contents_of_submit_eq_ok hBatch) (hEffects.sound hBefore)
      rw [hReply, hClock] at hReplays
      exact ⟨after, hAfter, .applied hEffects hReplays⟩

end MediaIndex.Reconcile

/-! ## Stores that answer every query -/

namespace MediaIndex.Catalog.Store

/-- The store, but no query to come fails. -/
def mended (s : Store) : Store := { s with failingQueries := [] }

theorem query_mended (s : Store) {α : Type} (column : String) (ask : Table → α) :
    (s.query column ask).2.mended = (s.mended.query column ask).2 ∧
      ((s.query column ask).1 = (s.mended.query column ask).1 ∨
        ∃ fault, (s.query column ask).1 = .error fault) := by
  refine ⟨rfl, ?_⟩
  by_cases hFails : 0 ∈ s.failingQueries
  · exact .inr ⟨.ioError, by simp [query, readable, hFails, Except.map]⟩
  · exact .inl (by simp [query, readable, hFails, mended])

theorem submit_mended (s : Store) (ops : List Operation) :
    (s.mended.submit ops).1 = (s.submit ops).1 ∧
      (s.mended.submit ops).2 = (s.submit ops).2.mended := by
  have hBatch : s.mended.batch ops = s.batch ops := rfl
  rw [submit, submit, hBatch]
  cases s.batch ops <;> exact ⟨rfl, rfl⟩

end MediaIndex.Catalog.Store

namespace MediaIndex.Reconcile

open Catalog (Operation Store StoreFault Table)
open Disk (Attributes Tree)
open Walk (Event)

/-- The calls are some, or the first of them and then one query that is not answered. -/
inductive CutOff (whole : List Call) : List Call → Prop where
  | whole : CutOff whole whole
  | cut {earlier : List Call} {call : Call} (hEarlier : earlier <+: whole)
      (hUnanswered : call.isUnanswered = true) : CutOff whole (earlier ++ [call])

theorem CutOff.cons {whole calls : List Call} (h : CutOff whole calls) (call : Call) :
    CutOff (call :: whole) (call :: calls) := by
  cases h with
  | whole => exact .whole
  | cut hEarlier hUnanswered =>
    exact .cut (List.prefix_cons_inj call |>.mpr hEarlier) hUnanswered

theorem CutOff.batches_isPrefix {whole calls : List Call} (h : CutOff whole calls) :
    batches calls <+: batches whole := by
  cases h with
  | whole => exact List.prefix_refl _
  | @cut earlier call hEarlier hUnanswered =>
    have hQuery : ¬ call.isBatch = true := by
      cases call with
      | submit ops reply => cases hUnanswered
      | lookup volume path reply => exact Bool.false_ne_true
      | idsUnder volume root reply => exact Bool.false_ne_true
    rw [batches, List.filter_append, List.filter_cons_of_neg hQuery, List.filter_nil,
      List.append_nil]
    exact hEarlier.filter _

namespace Pass

/-- Without an answer the dialogue is over, and its end has a property. -/
def Breaks {α : Type} (post : Progress → Prop)
    (next : Except StoreFault α → Dialogue Progress) : Prop :=
  ∀ fault, ∃ p stop, next (.error fault) = stopped p stop ∧ post ⟨p, some stop⟩

/-- The dialogue is over as soon as a query is not answered or a batch is refused, and however it
is over its end has a property. -/
inductive Halts (post : Progress → Prop) : Dialogue Progress → Prop where
  | finish {progress : Progress} (h : post progress) : Halts post (.finish progress)
  | tell {note : Note} {next : Dialogue Progress} (h : Halts post next) :
      Halts post (.tell note next)
  | lookup {volume : String} {path : Path}
      {next : Except StoreFault (Option Catalog.Entry) → Dialogue Progress}
      (hBreaks : Breaks post next) (h : ∀ entry, Halts post (next (.ok entry))) :
      Halts post (.lookup volume path next)
  | idsUnder {volume : String} {root : Path}
      {next : Except StoreFault (List Int) → Dialogue Progress}
      (hBreaks : Breaks post next) (h : ∀ ids, Halts post (next (.ok ids))) :
      Halts post (.idsUnder volume root next)
  | submit {ops : List Operation}
      {next : Except Catalog.Failure (List (Option Int)) → Dialogue Progress}
      (hStops : ∀ cause, (∀ size fault, cause ≠ .batch size fault) →
        ∃ p stop, next (.error cause) = stopped p stop)
      (h : ∀ reply, Halts post (next reply)) : Halts post (.submit ops next)

variable {post first : Progress → Prop} {d : Dialogue Progress} {t : Tree} {p : Pass}

theorem Breaks.mono {α : Type} {next : Except StoreFault α → Dialogue Progress}
    (h : Breaks first next) (hStop : ∀ p stop, first ⟨p, some stop⟩ → post ⟨p, some stop⟩) :
    Breaks post next := by
  intro fault
  obtain ⟨p, stop, hError, hFirst⟩ := h fault
  exact ⟨p, stop, hError, hStop p stop hFirst⟩

theorem Breaks.andThen {α : Type} {next : Except StoreFault α → Dialogue Progress}
    (h : Breaks post next) (rest : Pass → Dialogue Progress) :
    Breaks post fun reply => Progress.andThen (next reply) rest := by
  intro fault
  obtain ⟨p, stop, hError, hPost⟩ := h fault
  exact ⟨p, stop, congrArg (Progress.andThen · rest) hError, hPost⟩

theorem Halts.mono (h : Halts first d) (hWeaker : ∀ progress, first progress → post progress) :
    Halts post d := by
  induction h with
  | finish h => exact .finish (hWeaker _ h)
  | tell h ih => exact .tell ih
  | lookup hBreaks h ih => exact .lookup (hBreaks.mono fun _ _ => hWeaker _) ih
  | idsUnder hBreaks h ih => exact .idsUnder (hBreaks.mono fun _ _ => hWeaker _) ih
  | submit hStops h ih => exact .submit hStops ih

theorem Halts.tellAll {notes : List Note} (h : Halts post d) : Halts post (.tellAll notes d) := by
  induction notes with
  | nil => exact h
  | cons note notes ih => exact .tell ih

theorem Halts.andThen {next : Pass → Dialogue Progress} (h : Halts first d)
    (hStop : ∀ p stop, first ⟨p, some stop⟩ → post ⟨p, some stop⟩)
    (hNext : ∀ p, first ⟨p, none⟩ → Halts post (next p)) :
    Halts post (Progress.andThen d next) := by
  induction h with
  | @finish progress h =>
    obtain ⟨p, failure⟩ := progress
    cases failure with
    | none => exact hNext p h
    | some stop => exact .finish (hStop p stop h)
  | tell h ih => exact .tell ih
  | lookup hBreaks h ih => exact .lookup ((hBreaks.mono hStop).andThen next) ih
  | idsUnder hBreaks h ih => exact .idsUnder ((hBreaks.mono hStop).andThen next) ih
  | submit hStops h ih =>
    refine .submit (fun cause hOther => ?_) ih
    obtain ⟨p, stop, hError⟩ := hStops cause hOther
    exact ⟨p, stop, congrArg (Progress.andThen · next) hError⟩

/-! ## What a dialogue that halts does -/

theorem result_of_query {α : Type} {next : Except StoreFault α → Dialogue Progress}
    (hBreaks : Breaks post next)
    (hNext : ∀ answer s, post ((next (.ok answer)).run s).result) (reply : Except StoreFault α)
    (s : Store) : post ((next reply).run s).result := by
  cases reply with
  | error fault =>
    obtain ⟨p, stop, hError, hPost⟩ := hBreaks fault
    rw [hError]
    exact hPost
  | ok answer => exact hNext answer s

theorem Halts.result (h : Halts post d) (s : Store) : post (d.run s).result := by
  induction h generalizing s with
  | finish h => exact h
  | tell h ih => exact ih s
  | lookup hBreaks h ih => exact result_of_query hBreaks ih _ _
  | idsUnder hBreaks h ih => exact result_of_query hBreaks ih _ _
  | submit hStops h ih => exact ih _ _

theorem calls_stopped (p : Pass) (stop : Failure) (s : Store) : (stopped p stop).calls s = [] := rfl

theorem eq_nil_of_cons {head call : Call} {rest earlier later : List Call}
    (hCalls : head :: rest = earlier ++ call :: later) (hFatal : call.isFatal = true)
    (hHead : head.isFatal = true → rest = [])
    (hRest : ∀ {others}, rest = others ++ call :: later → later = []) : later = [] := by
  cases earlier with
  | nil =>
    obtain ⟨rfl, rfl⟩ := List.cons.inj hCalls
    exact hHead hFatal
  | cons other earlier => exact hRest (List.cons.inj hCalls).2

theorem last_of_query {α : Type} {next : Except StoreFault α → Dialogue Progress}
    {ask : Except StoreFault α → Call} {reply : Except StoreFault α} {s : Store}
    {earlier later : List Call} {call : Call}
    (hBreaks : Breaks post next)
    (hNext : ∀ answer {s} {others}, (next (.ok answer)).calls s = others ++ call :: later →
      later = [])
    (hAnswered : ∀ answer, (ask (.ok answer)).isFatal = false) (hFatal : call.isFatal = true)
    (hCalls : ask reply :: (next reply).calls s = earlier ++ call :: later) : later = [] := by
  cases reply with
  | error fault =>
    obtain ⟨p, stop, hError, -⟩ := hBreaks fault
    rw [hError, calls_stopped] at hCalls
    exact eq_nil_of_cons hCalls hFatal (fun _ => rfl) (by simp)
  | ok answer =>
    refine eq_nil_of_cons hCalls hFatal (fun hHead => ?_) (hNext answer)
    rw [hAnswered] at hHead
    cases hHead

/-- A call that is not set aside is the last one. -/
theorem Halts.last (h : Halts post d) {s : Store} {earlier later : List Call} {call : Call}
    (hCalls : d.calls s = earlier ++ call :: later) (hFatal : call.isFatal = true) :
    later = [] := by
  induction h generalizing s earlier with
  | finish h => simp [Dialogue.calls] at hCalls
  | tell h ih => exact ih hCalls
  | @lookup volume path next hBreaks h ih =>
    rw [Dialogue.calls_lookup] at hCalls
    exact last_of_query hBreaks ih (fun _ => rfl) hFatal hCalls
  | @idsUnder volume root next hBreaks h ih =>
    rw [Dialogue.calls_idsUnder] at hCalls
    exact last_of_query hBreaks ih (fun _ => rfl) hFatal hCalls
  | @submit ops next hStops h ih =>
    rw [Dialogue.calls_submit] at hCalls
    refine eq_nil_of_cons hCalls hFatal (fun hHead => ?_) (ih _)
    cases hReply : (s.submit ops).1 with
    | ok ids =>
      rw [hReply] at hHead
      cases hHead
    | error cause =>
      have hOther : ∀ size fault, cause ≠ .batch size fault := by
        rintro size fault rfl
        rw [hReply] at hHead
        cases hHead
      obtain ⟨p, stop, hNext⟩ := hStops cause hOther
      rw [hNext, calls_stopped]

theorem cutOff_of_query {α : Type} {next : Except StoreFault α → Dialogue Progress}
    {call : Except StoreFault α → Call} {reply whole : Except StoreFault α} {s : Store}
    (hBreaks : Breaks post next)
    (hNext : ∀ answer, CutOff ((next (.ok answer)).calls s.mended) ((next (.ok answer)).calls s))
    (hUnanswered : ∀ fault, (call (.error fault)).isUnanswered = true)
    (hReply : reply = whole ∨ ∃ fault, reply = .error fault) :
    CutOff (call whole :: (next whole).calls s.mended) (call reply :: (next reply).calls s) := by
  cases reply with
  | error fault =>
    obtain ⟨p, stop, hError, -⟩ := hBreaks fault
    rw [hError, calls_stopped]
    exact .cut List.nil_prefix (hUnanswered fault)
  | ok answer =>
    obtain rfl | ⟨fault, hFault⟩ := hReply
    · exact (hNext answer).cons _
    · cases hFault

/-- The calls are those over the store that answers every query, up to the first query that is not
answered. -/
theorem Halts.cutOff (h : Halts post d) (s : Store) : CutOff (d.calls s.mended) (d.calls s) := by
  induction h generalizing s with
  | finish h => exact .whole
  | tell h ih => exact ih s
  | @lookup volume path next hBreaks h ih =>
    obtain ⟨hStore, hReply⟩ := s.query_mended "id" fun t => t.lookup volume path
    rw [Dialogue.calls_lookup, Dialogue.calls_lookup, Store.lookup, Store.lookup, ← hStore]
    exact cutOff_of_query hBreaks (fun entry => ih entry _) (fun _ => rfl) hReply
  | @idsUnder volume root next hBreaks h ih =>
    obtain ⟨hStore, hReply⟩ := s.query_mended "id" fun t => t.idsUnder volume root
    rw [Dialogue.calls_idsUnder, Dialogue.calls_idsUnder, Store.idsUnder, Store.idsUnder, ← hStore]
    exact cutOff_of_query hBreaks (fun ids => ih ids _) (fun _ => rfl) hReply
  | @submit ops next hStops h ih =>
    obtain ⟨hReply, hStore⟩ := s.submit_mended ops
    rw [Dialogue.calls_submit, Dialogue.calls_submit, hReply, hStore]
    exact (ih _ _).cons _

end Pass

/-! ## How stages end -/

namespace Failure

/-- The failures that may stop what is done with a queue. -/
def isOfQueue : Failure → Bool
  | catalog _ => true
  | _ => false

/-- The failures that may stop a walk. -/
def isOfWalk : Failure → Bool
  | disk _ => true
  | catalog _ => true
  | walk _ _ => true
  | _ => false

/-- The failures that may stop a sweep. -/
def isOfSweep : Failure → Bool
  | catalog _ => true
  | cleanup _ _ => true
  | _ => false

end Failure

namespace Pass

/-- The phase in which a stage ends, and the failures that may have stopped it. -/
structure Ends (phase : Phase) (may : Failure → Bool) (progress : Progress) : Prop where
  phase : progress.pass.phase = phase
  may : ∀ stop, progress.failure = some stop → may stop = true

variable {phase : Phase} {may : Failure → Bool} {t : Tree} {p : Pass}

theorem ends_going (hPhase : p.phase = phase) : Ends phase may ⟨p, none⟩ :=
  ⟨hPhase, fun stop hStop => by cases hStop⟩

theorem ends_stopped (hPhase : p.phase = phase) {stop : Failure} (hMay : may stop = true) :
    Ends phase may ⟨p, some stop⟩ :=
  ⟨hPhase, fun _ hStop => Option.some.inj hStop ▸ hMay⟩

theorem Ends.mono {weaker : Failure → Bool} {progress : Progress} (h : Ends phase may progress)
    (hWeaker : ∀ stop, may stop = true → weaker stop = true) : Ends phase weaker progress :=
  ⟨h.phase, fun stop hStop => hWeaker stop (h.may stop hStop)⟩

theorem halts_going (p : Pass) : Halts (Ends p.phase may) (going p) := .finish (ends_going rfl)

theorem Halts.andThen_ends {d : Dialogue Progress} {next : Pass → Dialogue Progress}
    (h : Halts (Ends phase may) d)
    (hNext : ∀ p, p.phase = phase → Halts (Ends phase may) (next p)) :
    Halts (Ends phase may) (Progress.andThen d next) :=
  h.andThen (fun _ _ hEnds => hEnds) fun p hEnds => hNext p hEnds.phase

/-- A queue that is emptied leaves nothing waiting, and a failure of it goes on. -/
theorem halts_flush_queue {post : Progress → Prop} (q : Queue)
    {f : Queue.Progress → Dialogue Progress}
    (hGoing : ∀ queue : Queue, queue.pending = [] → Halts post (f ⟨queue, none⟩))
    (hStopped : ∀ (queue : Queue) cause, queue.pending = [] →
      ∃ p, f ⟨queue, some cause⟩ = stopped p (.catalog cause) ∧ post ⟨p, some (.catalog cause)⟩) :
    Halts post (q.flush.andThen f) := by
  have hRefused : ∀ cause, Halts post (f ⟨{ q with pending := [] }, some cause⟩) := by
    intro cause
    obtain ⟨p, hStop, hPost⟩ := hStopped { q with pending := [] } cause rfl
    rw [hStop]
    exact .finish hPost
  unfold Queue.flush
  split
  · next hEmpty => exact hGoing q (List.isEmpty_iff.mp hEmpty)
  · refine .submit (fun cause hOther => ?_) fun reply => ?_
    · obtain ⟨p, hStop, -⟩ := hStopped { q with pending := [] } cause rfl
      refine ⟨p, .catalog cause, ?_⟩
      cases cause with
      | batch size fault => exact absurd rfl (hOther size fault)
      | _ => exact hStop
    · cases reply with
      | ok ids => exact .tell (hGoing _ (Queue.collect_spec _ _).2.1)
      | error cause =>
        cases cause with
        | batch size fault => exact .tell (hGoing _ rfl)
        | _ => exact hRefused _

theorem halts_flush (p : Pass) : Halts (fun progress => Ends p.phase Failure.isOfQueue progress ∧
    progress.pass.queue.pending = []) p.flush := by
  refine halts_flush_queue p.queue (fun queue hEmpty => ?_) fun queue cause hEmpty => ?_
  · exact .finish ⟨ends_going rfl, hEmpty⟩
  · refine ⟨_, rfl, ends_stopped ?_ ?_, hEmpty⟩ <;> rfl

theorem halts_enqueue (p : Pass) (op : Operation) (count : Tally → Tally) :
    Halts (Ends p.phase Failure.isOfQueue) (p.enqueue op count) := by
  unfold enqueue
  simp only [Queue.add]
  split
  · refine halts_flush_queue _ (fun queue hEmpty => ?_) fun queue cause hEmpty => ?_
    · exact .finish (ends_going rfl)
    · refine ⟨_, rfl, ends_stopped ?_ ?_⟩ <;> rfl
  · exact .finish (ends_going rfl)

theorem isOfWalk_of_isOfQueue (stop : Failure) (h : stop.isOfQueue = true) :
    stop.isOfWalk = true := by
  cases stop <;> first | rfl | cases h

theorem isOfSweep_of_isOfQueue (stop : Failure) (h : stop.isOfQueue = true) :
    stop.isOfSweep = true := by
  cases stop <;> first | rfl | cases h

theorem halts_taking (t : Tree) (p : Pass) (a : Attributes) :
    Halts (Ends p.phase Failure.isOfWalk) (taking t p a) := by
  unfold taking
  cases Media.takeIn t p.told a p.volume with
  | error fault => exact .finish (ends_stopped rfl rfl)
  | ok intake =>
    apply Halts.tellAll
    cases intake.record with
    | none => exact halts_going p
    | some record =>
      exact (halts_enqueue p _ _).mono fun progress h => h.mono isOfWalk_of_isOfQueue

theorem halts_visit (t : Tree) (p : Pass) (a : Attributes) :
    Halts (Ends p.phase Failure.isOfWalk) (p.visit t a) := by
  refine .lookup (fun fault => ⟨p.visiting, _, rfl, ends_stopped ?_ ?_⟩) fun entry => ?_
  · rfl
  · rfl
  have hTaking : Halts (Ends p.phase Failure.isOfWalk) (taking t p.visiting a) :=
    halts_taking t p.visiting a
  dsimp only
  cases freshness a entry with
  | unchanged entry => exact .finish (ends_going rfl)
  | stale => exact hTaking
  | new => exact hTaking

theorem halts_observe (t : Tree) (p : Pass) (event : Event) :
    Halts (Ends p.phase Failure.isOfWalk) (p.observe t event) := by
  cases event with
  | visit a => exact halts_visit t p a
  | hidden path => exact .tell (halts_going p)
  | leave path => exact halts_going p
  | failed path fault =>
    cases fault with
    | interrupted => exact .finish (ends_stopped rfl rfl)
    | failed reason text => exact .tell (.finish (ends_going rfl))

theorem halts_observeAll (t : Tree) (events : List Event) (p : Pass) :
    Halts (Ends p.phase Failure.isOfWalk) (observeAll t events p) := by
  induction events generalizing p with
  | nil => exact halts_going p
  | cons event events ih =>
    refine (halts_observe t p event).andThen_ends fun p' hPhase => ?_
    rw [← hPhase]
    exact ih p'

theorem halts_explore (t : Tree) (p : Pass) :
    Halts (Ends p.phase Failure.isOfWalk) (explore t p) := by
  refine .tell ((halts_observeAll t _ p).andThen_ends fun p' hPhase => ?_)
  rw [← hPhase]
  exact (halts_flush p').mono fun progress h => h.1.mono isOfWalk_of_isOfQueue

theorem halts_clean (ids : List Int) (p : Pass) :
    Halts (Ends p.phase Failure.isOfQueue) (clean ids p) := by
  induction ids generalizing p with
  | nil => exact halts_going p
  | cons id ids ih =>
    rw [clean]
    split
    · exact ih p
    · refine .tell ((halts_enqueue p _ _).andThen_ends fun p' hPhase => ?_)
      rw [← hPhase]
      exact ih p'

/-- A sweep that is over without a failure leaves nothing waiting. -/
def Swept (phase : Phase) (may : Failure → Bool) (progress : Progress) : Prop :=
  Ends phase may progress ∧ (progress.failure = none → progress.pass.queue.pending = [])

theorem halts_cleaned (ids : List Int) (p : Pass) :
    Halts (Swept p.phase Failure.isOfQueue) (Progress.andThen (clean ids p) flush) := by
  refine (halts_clean ids p).andThen (fun p' stop h => ⟨h, fun hGoing => by cases hGoing⟩) ?_
  intro p' h
  rw [← h.phase]
  exact (halts_flush p').mono fun progress hFlushed => ⟨hFlushed.1, fun _ => hFlushed.2⟩

theorem halts_sweep (p : Pass) : Halts (Swept p.phase Failure.isOfSweep) p.sweep := by
  refine .idsUnder (fun fault => ⟨p, _, rfl, ends_stopped rfl rfl, fun hGoing => by cases hGoing⟩)
    fun ids => ?_
  exact (halts_cleaned ids p).mono fun progress h => ⟨h.1.mono isOfSweep_of_isOfQueue, h.2⟩

theorem halts_finish (p : Pass) : Halts (Swept .sweeping Failure.isOfSweep) p.finish := by
  refine (halts_sweep { p with phase := .sweeping }).andThen (fun p' stop h => h) fun p' h => ?_
  exact .tell (.finish h)

/-- How a pass ends that did not run before: it is refused by nothing, and unless something stops it
it has swept and leaves nothing waiting. -/
structure Over (progress : Progress) : Prop where
  accepted : ∀ root, progress.failure ≠ some (.alreadyRan root)
  swept : progress.failure = none →
    progress.pass.phase = .sweeping ∧ progress.pass.queue.pending = []

theorem Ends.accepted {progress : Progress} (h : Ends phase may progress)
    (hMay : ∀ root, may (.alreadyRan root) = false) (root : Path) :
    progress.failure ≠ some (.alreadyRan root) := by
  intro hRefused
  have hTrue := h.may _ hRefused
  rw [hMay] at hTrue
  cases hTrue

theorem Swept.over {progress : Progress} (h : Swept .sweeping Failure.isOfSweep progress) :
    Over progress :=
  ⟨h.1.accepted fun _ => rfl, fun hGoing => ⟨h.1.phase, h.2 hGoing⟩⟩

theorem halts_run (t : Tree) (hNew : p.phase = .notStarted) : Halts Over (p.run t) := by
  rw [run, if_neg (not_not_intro hNew)]
  have hFinish : ∀ p' : Pass, Halts Over p'.finish := fun p' =>
    (halts_finish p').mono fun progress h => h.over
  cases p.isHidden t with
  | error fault =>
    refine .finish ⟨fun root hRefused => ?_, fun hGoing => ?_⟩
    · cases hRefused
    · cases hGoing
  | ok isHidden =>
    cases isHidden with
    | true => exact .tell (hFinish p)
    | false =>
      refine (halts_explore t { p with phase := .walking }).andThen (fun p' stop h => ?_)
        fun p' _ => hFinish p'
      exact ⟨h.accepted fun _ => rfl, fun hGoing => by cases hGoing⟩

end Pass

end MediaIndex.Reconcile
