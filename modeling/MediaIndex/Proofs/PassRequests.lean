import MediaIndex.Proofs.CutRuns
import MediaIndex.Proofs.QueueLedger

/-!
# A pass and its queue

All that a pass does with its queue is to ask it: to let an operation wait, to mark a number, to
submit what waits. So the batches it submits and the queue it leaves are those of a queue that is
asked in turn, and the ledger of the queue holds for the pass, over whatever store and wherever the
pass stops.
-/

namespace MediaIndex.Reconcile

open Catalog (Operation Store Table)
open Disk (Attributes Tree)
open Walk (Event)

theorem batches_append (calls more : List Call) :
    batches (calls ++ more) = batches calls ++ batches more :=
  List.filter_append ..

theorem batches_cons_of_query {call : Call} (hQuery : call.isBatch = false) (calls : List Call) :
    batches (call :: calls) = batches calls := by
  rw [batches, List.filter_cons_of_neg (by simp [hQuery])]
  rfl

theorem mem_batches {calls : List Call} {ops : List Operation}
    {reply : Except Catalog.Failure (List (Option Int))} :
    .submit ops reply ∈ batches calls ↔ .submit ops reply ∈ calls := by
  simp [batches, Call.isBatch]

theorem numbers_batches (calls : List Call) : numbers (batches calls) = numbers calls := by
  induction calls with
  | nil => rfl
  | cons call calls ih =>
    cases call <;> simpa [batches, numbers, Call.isBatch, Call.numbers] using ih

theorem applied_batches (calls : List Call) : applied (batches calls) = applied calls := by
  have hBatch : ∀ call : Call, (call.isApplied && call.isBatch) = call.isApplied := by
    intro call
    cases call with
    | submit ops reply => exact Bool.and_true _
    | _ => rfl
  rw [applied, batches, List.filter_filter, applied, funext hBatch]

namespace Queue

theorem serve_append (asked more : List (Request × Store)) (q : Queue) :
    q.serve (asked ++ more) =
      ((q.serve asked).1 ++ ((q.serve asked).2.serve more).1,
        ((q.serve asked).2.serve more).2) := by
  induction asked generalizing q with
  | nil => rfl
  | cons first asked ih =>
    obtain ⟨request, s⟩ := first
    simp only [List.cons_append, serve, ih, List.append_assoc]

theorem serve_singleton (q : Queue) (request : Request) (s : Store) :
    q.serve [(request, s)] =
      ((q.handle request).calls s, ((q.handle request).run s).result.queue) := by
  simp [serve]

theorem batches_handle (q : Queue) (request : Request) (s : Store) :
    batches ((q.handle request).calls s) = (q.handle request).calls s := by
  have hHandles := q.handles_handle request s
  generalize (q.handle request).calls s = calls, ((q.handle request).run s).result = progress
    at hHandles ⊢
  cases hHandles with
  | waits hRoom => rfl
  | submits reply hSome hAsked => rfl

end Queue

namespace Pass

/-- Over whatever store, a stage has asked a queue and leaves what became of it. -/
def Asks (q : Queue) (d : Dialogue Progress) : Prop :=
  d.Accounts fun calls _ progress => ∃ asked, q.serve asked = (batches calls, progress.pass.queue)

variable {t : Tree} {q : Queue} {d : Dialogue Progress}

theorem asks_result (p : Pass) (failure : Option Failure) : Asks p.queue (.finish ⟨p, failure⟩) :=
  Dialogue.accounts_finish ⟨[], rfl⟩

theorem Asks.andThen {next : Pass → Dialogue Progress} (h : Asks q d)
    (hNext : ∀ p : Pass, Asks p.queue (next p)) : Asks q (Progress.andThen d next) := by
  refine Dialogue.accounts_andThen (Dialogue.Accounts.mono h ?_)
  rintro calls notes ⟨p, failure⟩ ⟨asked, hAsked⟩
  cases failure with
  | none =>
    refine (hNext p).mono ?_
    rintro more others progress ⟨later, hLater⟩
    exact ⟨asked ++ later, by rw [Queue.serve_append, hAsked, hLater, batches_append]⟩
  | some stop =>
    refine Dialogue.accounts_finish ⟨asked, ?_⟩
    rw [hAsked, List.append_nil]

theorem Asks.tell (h : Asks q d) (note : Note) : Asks q (.tell note d) :=
  Dialogue.accounts_tell h

theorem Asks.tellAll (h : Asks q d) (notes : List Note) : Asks q (.tellAll notes d) := by
  induction notes with
  | nil => exact h
  | cons note notes ih => exact ih.tell note

theorem Asks.queried {call : Call} (h : Asks q d) (hQuery : call.isBatch = false) :
    d.Accounts fun calls _ progress =>
      ∃ asked, q.serve asked = (batches (call :: calls), progress.pass.queue) := by
  simp only [batches_cons_of_query hQuery]
  exact h

/-- What follows a single request asks what the request asked. -/
theorem asks_of_request (p : Pass) (request : Request) {next : Queue.Progress → Dialogue Progress}
    (hNext : ∀ queue s, (next queue).calls s = [] ∧
      ((next queue).run s).result.pass.queue = queue.queue) :
    Asks p.queue ((p.queue.handle request).andThen next) := by
  intro s
  obtain ⟨hCalls, hQueue⟩ :=
    hNext ((p.queue.handle request).run s).result ((p.queue.handle request).run s).store
  refine ⟨[(request, s)], ?_⟩
  rw [Dialogue.calls_andThen, Dialogue.run_andThen, hCalls, hQueue, List.append_nil,
    Queue.batches_handle, Queue.serve_singleton]

theorem asks_enqueue (p : Pass) (op : Operation) (count : Tally → Tally) :
    Asks p.queue (p.enqueue op count) :=
  asks_of_request p (.add op) fun ⟨queue, failure⟩ s => by cases failure <;> exact ⟨rfl, rfl⟩

theorem asks_flush (p : Pass) : Asks p.queue p.flush :=
  asks_of_request p .flush fun _ _ => ⟨rfl, rfl⟩

theorem asks_taking (p : Pass) (a : Attributes) : Asks p.queue (taking t p a) := by
  unfold taking
  cases Media.takeIn t p.told a p.volume with
  | error fault => exact asks_result p _
  | ok intake =>
    refine Asks.tellAll ?_ intake.notes
    cases intake.record with
    | none => exact asks_result p none
    | some record => exact asks_enqueue p (.upsert record) countQueued

theorem asks_confirming (p : Pass) (id : Int) : Asks p.queue (going (p.confirming id)) :=
  fun s => ⟨[(.mark id, s)], rfl⟩

theorem asks_visit (p : Pass) (a : Attributes) : Asks p.queue (p.visit t a) := by
  apply Dialogue.accounts_lookup
  intro reply
  cases reply with
  | error fault => exact (asks_result p.visiting _).queried rfl
  | ok found =>
    dsimp only
    cases freshness a found with
    | unchanged entry => exact (asks_confirming p.visiting entry.id).queried rfl
    | stale => exact (asks_taking p.visiting a).queried rfl
    | new => exact (asks_taking p.visiting a).queried rfl

theorem asks_observe (p : Pass) (event : Event) : Asks p.queue (p.observe t event) := by
  cases event with
  | visit a => exact asks_visit p a
  | hidden path => exact (asks_result p none).tell _
  | leave path => exact asks_result p none
  | failed path fault =>
    cases fault with
    | interrupted => exact asks_result p _
    | failed reason text =>
      exact (asks_result { p with tally := { p.tally with failed := p.tally.failed + 1 } }
        none).tell _

theorem asks_observeAll (p : Pass) (events : List Event) :
    Asks p.queue (observeAll t events p) := by
  induction events generalizing p with
  | nil => exact asks_result p none
  | cons event events ih => exact (asks_observe p event).andThen ih

theorem asks_clean (p : Pass) (ids : List Int) : Asks p.queue (clean ids p) := by
  induction ids generalizing p with
  | nil => exact asks_result p none
  | cons id ids ih =>
    rw [clean]
    split
    · exact ih p
    · exact ((asks_enqueue p (.delete id) countDeleted).andThen ih).tell _

theorem asks_finish (p : Pass) : Asks p.queue p.finish := by
  have hSweep : Asks p.queue (sweep { p with phase := .sweeping }) := by
    apply Dialogue.accounts_idsUnder
    intro reply
    cases reply with
    | error fault => exact (asks_result { p with phase := .sweeping } _).queried rfl
    | ok ids =>
      exact ((asks_clean { p with phase := .sweeping } ids).andThen asks_flush).queried rfl
  exact hSweep.andThen fun p' => (asks_result p' none).tell _

theorem asks_run (t : Tree) (p : Pass) : Asks p.queue (p.run t) := by
  unfold run
  split
  · exact asks_result p _
  · cases p.isHidden t with
    | error fault => exact asks_result p _
    | ok isHidden =>
      cases isHidden with
      | true => exact (asks_finish p).tell _
      | false =>
        have hObserved : Asks p.queue
            (observeAll t (Walk.walk t p.root) { p with phase := .walking }) :=
          asks_observeAll { p with phase := .walking } _
        exact ((hObserved.andThen asks_flush).tell _).andThen asks_finish

/-- Wherever a new pass stops, its batches and its queue have a ledger of what the queue was
asked. -/
theorem served_of_run {p : Pass} {size : Int} (hSize : 0 ≤ size) (hNew : p.IsNew size) (t : Tree)
    (s : Store) : ∃ requests,
      Served size requests (batches ((p.run t).calls s)) ((p.run t).run s).result.pass.queue ∧
        (((p.run t).run s).result.pass.queue.pending.length : Int) ≤ size := by
  obtain ⟨asked, hAsked⟩ := asks_run t p s
  rw [hNew.queue] at hAsked
  have hServed := (served_ofSize size).serve (q := .ofSize size) hSize hSize asked
  rw [hAsked] at hServed
  exact ⟨_, hServed⟩

end Pass

/-! ## Numbers and records -/

theorem length_numbers_of_effects {now : String} {before after : Table} {ops : List Operation}
    {results : List (Option Int)} (h : Table.Effects now before ops results after) :
    (results.filterMap id).length = (ops.filterMap (·.record?)).length := by
  induction h with
  | nil => rfl
  | cons hFirst hRest ih => cases hFirst <;> simpa [Operation.record?] using ih

theorem Replays.length_numbers {clock : Nat} {before after : Table} {calls : List Call}
    (h : Replays clock before calls after) : (numbers calls).length = (written calls).length := by
  induction h with
  | nil => rfl
  | failed hRest ih => exact ih
  | applied hEffects hRest ih =>
    rw [numbers, written] at ih ⊢
    rw [List.flatMap_cons, applied_cons, if_pos (by rfl), List.filterMap_append, List.length_append,
      List.length_append, ih]
    exact congrArg (· + _) (length_numbers_of_effects hEffects)

/-- The batches of a dialogue tell as many numbers as they write records. -/
theorem length_numbers_of_run {α : Type} (d : Dialogue α) {s : Store} {before : Table}
    (hs : s.contents = .table before) (hBefore : before.Sound) :
    (numbers (d.calls s)).length = (written (d.calls s)).length := by
  obtain ⟨after, -, hReplays⟩ := replays_run d hs hBefore
  have hLength := hReplays.length_numbers
  rwa [numbers_batches, written, applied_batches] at hLength

end MediaIndex.Reconcile
