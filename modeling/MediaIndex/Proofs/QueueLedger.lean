import MediaIndex.Proofs.BatchEffects
import MediaIndex.Proofs.QueueSteps

/-!
# The ledger of a queue

A queue may be asked to let operations wait, to mark numbers and to submit what waits, in whatever
order and over whatever stores. The operations that were submitted and those that still wait are at
every point those that it was given, in order: none is dropped before it was submitted, and none is
submitted twice. What the queue counts and remembers is read off the calls it made.
-/

namespace MediaIndex.Reconcile

open Catalog (Operation Store)

/-! ## Numbers that applied batches tell -/

def Call.numbers : Call → List Int
  | submit _ (.ok ids) => ids.filterMap id
  | _ => []

def numbers (calls : List Call) : List Int := calls.flatMap (·.numbers)

@[simp] theorem numbers_nil : numbers [] = [] := rfl

@[simp] theorem numbers_singleton (call : Call) : numbers [call] = call.numbers :=
  List.append_nil _

@[simp] theorem numbers_append (calls more : List Call) :
    numbers (calls ++ more) = numbers calls ++ numbers more :=
  List.flatMap_append

/-! ## Requests -/

/-- What a queue is asked. -/
inductive Request where
  | add (op : Operation)
  | mark (id : Int)
  | flush

namespace Request

def op? : Request → Option Operation
  | add op => some op
  | _ => none

end Request

namespace Queue

def handle (q : Queue) : Request → Dialogue Progress
  | .add op => q.add op
  | .mark id => .finish ⟨q.mark id, none⟩
  | .flush => q.flush

/-- Handles requests one after the other, each over its store and whatever became of the ones
before. What is left are the calls and the queue. -/
def serve : List (Request × Store) → Queue → List Call × Queue
  | [], q => ([], q)
  | (request, s) :: asked, q =>
    let (calls, q') := serve asked ((q.handle request).run s).result.queue
    ((q.handle request).calls s ++ calls, q')

variable {q : Queue} {request : Request} {calls : List Call} {progress : Progress}

/-! ## What comes of a request -/

/-- The queue with what it is given, before it submits. -/
def receive (q : Queue) : Request → Queue
  | .add op => q.behind op
  | .mark id => q.mark id
  | .flush => q

/-- What the answer to a batch of all that waits makes of a queue. -/
def settle (q : Queue) : Except Catalog.Failure (List (Option Int)) → Progress
  | .ok ids => ⟨{ q with pending := [], applied := q.applied + q.pending.length }.collect ids, none⟩
  | .error (.batch _ _) => ⟨{ q with pending := [], failed := q.failed + 1 }, none⟩
  | .error failure => ⟨{ q with pending := [] }, some failure⟩

/-- A request leaves the queue as it received it, with room for all that waits, or all that waits is
submitted. -/
inductive Handles (q : Queue) (request : Request) : List Call → Progress → Prop where
  | waits (hRoom : (q.pending.length : Int) ≤ q.size →
      ((q.receive request).pending.length : Int) ≤ q.size) :
      Handles q request [] ⟨q.receive request, none⟩
  | submits (reply : Except Catalog.Failure (List (Option Int)))
      (hSome : (q.receive request).pending ≠ []) (hAsked : ∀ id, request ≠ .mark id) :
      Handles q request [.submit (q.receive request).pending reply]
        ((q.receive request).settle reply)

theorem ensures_flush_of_pending (hSome : q.pending ≠ []) (s : Store) :
    q.flush.Ensures s fun calls progress _ =>
      calls = [.submit q.pending (s.submit q.pending).1] ∧
        progress = q.settle (s.submit q.pending).1 := by
  have hNotEmpty : ¬ q.pending.isEmpty = true := by simpa using hSome
  rw [flush, if_neg hNotEmpty, Dialogue.ensures_apply]
  cases (s.submit q.pending).1 with
  | ok ids => exact ⟨rfl, rfl⟩
  | error failure => cases failure <;> exact ⟨rfl, rfl⟩

theorem handles_handle (q : Queue) (request : Request) (s : Store) :
    q.Handles request ((q.handle request).calls s) ((q.handle request).run s).result := by
  cases request with
  | mark id => exact .waits fun hRoom => by rwa [receive, pending_mark]
  | flush =>
    by_cases hSome : q.pending = []
    · have hIdle : q.flush = .finish ⟨q, none⟩ := by rw [flush, hSome]; rfl
      rw [handle, hIdle]
      exact .waits id
    · obtain ⟨hCalls, hResult⟩ := ensures_flush_of_pending hSome s
      rw [handle, hCalls, hResult]
      exact .submits _ hSome (by simp)
  | add op =>
    have hAdd : q.add op =
        if q.size < (q.behind op).pending.length then (q.behind op).flush
        else .finish ⟨q.behind op, none⟩ := rfl
    rw [handle, hAdd]
    split
    · next hFull =>
      have hSome : (q.behind op).pending ≠ [] := by simp [behind]
      obtain ⟨hCalls, hResult⟩ := ensures_flush_of_pending hSome s
      rw [hCalls, hResult]
      exact .submits _ hSome (by simp)
    · next hRoom => exact .waits fun _ => Int.not_lt.mp hRoom

theorem settle_of_refused {failure : Catalog.Failure}
    (h : ∀ size fault, failure ≠ .batch size fault) :
    q.settle (.error failure) = ⟨{ q with pending := [] }, some failure⟩ := by
  cases failure with
  | batch size fault => exact absurd rfl (h size fault)
  | _ => rfl

/-- A failure goes on if it is that of a submission, and not one that is set aside; then the queue
has lost what waited and is otherwise as before. -/
theorem Handles.failure_iff (h : q.Handles request calls progress) (failure : Catalog.Failure) :
    progress.failure = some failure ↔
      (∃ ops, .submit ops (.error failure) ∈ calls) ∧
        ∀ size fault, failure ≠ .batch size fault := by
  cases h with
  | waits hRoom => simp
  | submits reply hSome hAsked =>
    cases reply with
    | ok ids => simp [settle]
    | error cause =>
      constructor
      · intro hFailure
        cases cause with
        | batch size fault => cases hFailure
        | _ =>
          obtain rfl := Option.some.inj hFailure
          exact ⟨⟨_, List.mem_singleton_self _⟩, by simp⟩
      · rintro ⟨⟨ops, hCall⟩, hOther⟩
        cases List.mem_singleton.mp hCall
        rw [settle_of_refused hOther]

theorem Handles.queue_of_failure (h : q.Handles request calls progress) {failure : Catalog.Failure}
    (hFailure : progress.failure = some failure) : progress.queue = { q with pending := [] } := by
  obtain ⟨⟨ops, hCall⟩, hOther⟩ := (h.failure_iff failure).mp hFailure
  cases h with
  | waits hRoom => cases hCall
  | submits reply hSome hAsked =>
    cases List.mem_singleton.mp hCall
    rw [settle_of_refused hOther]
    cases request with
    | add op => rfl
    | mark id => exact absurd rfl (hAsked id)
    | flush => rfl

theorem settle_spec (q : Queue) (reply : Except Catalog.Failure (List (Option Int))) :
    (q.settle reply).queue.size = q.size ∧ (q.settle reply).queue.pending = [] := by
  cases reply with
  | ok ids => exact ⟨(collect_spec _ _).1, (collect_spec _ _).2.1⟩
  | error cause => cases cause <;> exact ⟨rfl, rfl⟩

theorem mark_counts (q : Queue) (i : Int) :
    (q.mark i).size = q.size ∧ (q.mark i).first = q.first ∧ (q.mark i).applied = q.applied := by
  unfold mark
  split <;> exact ⟨rfl, rfl, rfl⟩

theorem collect_counts (q : Queue) (ids : List (Option Int)) :
    (q.collect ids).applied = q.applied ∧
      (q.collect ids).first = q.first.or (ids.filterMap id).head? := by
  rw [collect]
  generalize ids.filterMap id = found
  induction found generalizing q with
  | nil => exact ⟨rfl, (Option.or_none).symm⟩
  | cons i found ih =>
    rw [List.foldl_cons]
    obtain ⟨hApplied, hFirst⟩ := ih { q.mark i with first := q.first <|> some i }
    refine ⟨hApplied.trans (mark_counts q i).2.2, hFirst.trans ?_⟩
    cases q.first <;> rfl

theorem length_receive_le (q : Queue) (request : Request) :
    (q.receive request).pending.length ≤ q.pending.length + 1 := by
  cases request with
  | add op => simp [receive, behind]
  | mark id => simp [receive, pending_mark]
  | flush => simp [receive]

end Queue

/-! ## What was asked and what was done -/

/-- What a queue of a size has done so far: what it was asked, the calls it made, and what it is
now. -/
structure Served (size : Int) (requests : List Request) (calls : List Call) (q : Queue) :
    Prop where
  held : q.size = size
  batches : ∀ call ∈ calls, ∃ ops reply, call = .submit ops reply ∧
    1 ≤ ops.length ∧ (ops.length : Int) ≤ size + 1
  order : operations calls ++ q.pending = requests.filterMap (·.op?)
  scanned : ∀ id, id ∈ q.scanned ↔ .mark id ∈ requests ∨ id ∈ numbers calls
  first : q.first = (numbers calls).head?
  done : q.applied = (applied calls).length
  lost : q.failed = (calls.filter (·.isLost)).length

variable {size : Int} {requests : List Request} {calls more : List Call} {q : Queue}
  {progress : Queue.Progress}

theorem served_ofSize (size : Int) : Served size [] [] (.ofSize size) where
  held := rfl
  batches := by simp
  order := rfl
  scanned := by simp [Queue.ofSize]
  first := rfl
  done := rfl
  lost := rfl

theorem Served.receive (h : Served size requests calls q) (request : Request) :
    Served size (requests ++ [request]) calls (q.receive request) := by
  cases request with
  | add op =>
    refine { h with order := ?_, scanned := fun id => ?_ }
    · simp [Queue.receive, Queue.behind, ← List.append_assoc, h.order, Request.op?]
    · simp [Queue.receive, Queue.behind, h.scanned]
  | mark id =>
    obtain ⟨hSize, hFirst, hApplied⟩ := q.mark_counts id
    refine ⟨hSize.trans h.held, h.batches, ?_, fun other => ?_, hFirst.trans h.first,
      hApplied.trans h.done, (q.failed_mark id).trans h.lost⟩
    · simp [Queue.receive, Queue.pending_mark, h.order, Request.op?]
    · simp [Queue.receive, Queue.mem_scanned_mark, h.scanned, or_right_comm]
  | flush =>
    refine { h with order := ?_, scanned := fun id => ?_ }
    · simp [Queue.receive, h.order, Request.op?]
    · simp [Queue.receive, h.scanned]

theorem Served.settle (h : Served size requests calls q) (hSome : q.pending ≠ [])
    (hFew : (q.pending.length : Int) ≤ size + 1)
    (reply : Except Catalog.Failure (List (Option Int))) :
    Served size requests (calls ++ [.submit q.pending reply]) (q.settle reply).queue := by
  have hBatches : ∀ call ∈ calls ++ [.submit q.pending reply], ∃ ops reply,
      call = .submit ops reply ∧ 1 ≤ ops.length ∧ (ops.length : Int) ≤ size + 1 := by
    intro call hCall
    rcases List.mem_append.mp hCall with hCall | hCall
    · exact h.batches call hCall
    · exact ⟨_, _, List.mem_singleton.mp hCall, List.length_pos_of_ne_nil hSome, hFew⟩
  have hOrder : operations (calls ++ [.submit q.pending reply]) ++ [] =
      requests.filterMap (·.op?) := by
    rw [List.append_nil, operations_append, ← h.order]
    exact congrArg _ (List.append_nil _)
  cases reply with
  | ok ids =>
    obtain ⟨hSize, hPending, hFailed, hScanned⟩ := Queue.collect_spec
      { q with pending := [], applied := q.applied + q.pending.length } ids
    obtain ⟨hApplied, hFirst⟩ := Queue.collect_counts
      { q with pending := [], applied := q.applied + q.pending.length } ids
    refine ⟨hSize.trans h.held, hBatches, hPending ▸ hOrder, fun id => ?_, ?_, ?_, ?_⟩
    · rw [Queue.settle, hScanned, h.scanned, numbers_append, List.mem_append, or_assoc]
      simp [Call.numbers]
    · rw [Queue.settle, hFirst, h.first, numbers_append, List.head?_append]
      simp [Call.numbers]
    · rw [Queue.settle, hApplied, h.done, applied_append, List.length_append]
      simp [Call.isApplied, Call.ops]
    · rw [Queue.settle, hFailed, h.lost, List.filter_append]
      simp [Call.isLost]
  | error cause =>
    have hRest : ∀ id, id ∈ q.scanned ↔
        .mark id ∈ requests ∨ id ∈ numbers (calls ++ [.submit q.pending (.error cause)]) := by
      simp [h.scanned, Call.numbers]
    have hFirst : q.first = (numbers (calls ++ [.submit q.pending (.error cause)])).head? := by
      simp [h.first, Call.numbers]
    have hApplied : q.applied =
        (applied (calls ++ [.submit q.pending (.error cause)])).length := by
      simp [h.done, Call.isApplied]
    cases cause with
    | batch count fault =>
      refine ⟨h.held, hBatches, hOrder, hRest, hFirst, hApplied, ?_⟩
      simp [Queue.settle, h.lost, Call.isLost]
    | _ =>
      refine ⟨h.held, hBatches, hOrder, hRest, hFirst, hApplied, ?_⟩
      simp [Queue.settle, h.lost, Call.isLost]

theorem Served.handles (h : Served size requests calls q) (hRoom : (q.pending.length : Int) ≤ size)
    (hSize : 0 ≤ size) (hHandles : q.Handles request more progress) :
    Served size (requests ++ [request]) (calls ++ more) progress.queue ∧
      (progress.queue.pending.length : Int) ≤ size := by
  have hReceived : Served size (requests ++ [request]) calls (q.receive request) :=
    h.receive request
  cases hHandles with
  | waits hStill =>
    rw [List.append_nil]
    rw [h.held] at hStill
    exact ⟨hReceived, hStill hRoom⟩
  | submits reply hSome hAsked =>
    have hFew : ((q.receive request).pending.length : Int) ≤ size + 1 := by
      have hMore := Queue.length_receive_le q request
      omega
    refine ⟨hReceived.settle hSome hFew reply, ?_⟩
    simpa [(Queue.settle_spec _ reply).2] using hSize

theorem Served.serve (h : Served size requests calls q) (hRoom : (q.pending.length : Int) ≤ size)
    (hSize : 0 ≤ size) (asked : List (Request × Store)) :
    Served size (requests ++ asked.map (·.1)) (calls ++ (q.serve asked).1) (q.serve asked).2 ∧
      ((q.serve asked).2.pending.length : Int) ≤ size := by
  induction asked generalizing requests calls q with
  | nil => simpa [Queue.serve] using ⟨h, hRoom⟩
  | cons first asked ih =>
    obtain ⟨request, s⟩ := first
    obtain ⟨hNext, hNextRoom⟩ := h.handles hRoom hSize (Queue.handles_handle q request s)
    have hAll := ih hNext hNextRoom
    rw [List.append_assoc, List.append_assoc] at hAll
    exact hAll

/-- Whatever a queue is asked and whatever the stores answer, it has room for all that waits, it
submits no more operations at once than it holds and one more, and what it submitted and what still
waits is what it was given, in order. It counts what was applied and the batches that were lost. A
number counts as scanned if it was marked or an applied batch told it, and the first of these stays
the first. A failure that is not set aside goes on and leaves nothing waiting. -/
theorem nothing_lost_or_repeated {size : Int} (hSize : 0 ≤ size) (asked : List (Request × Store)) :
    let requests := asked.map (·.1)
    let calls := ((Queue.ofSize size).serve asked).1
    let q := ((Queue.ofSize size).serve asked).2
    (q.pending.length : Int) ≤ size ∧
      (∀ call ∈ calls, ∃ ops reply, call = .submit ops reply ∧
        1 ≤ ops.length ∧ (ops.length : Int) ≤ size + 1) ∧
      operations calls ++ q.pending = requests.filterMap (·.op?) ∧
      (∀ id, id ∈ q.scanned ↔ .mark id ∈ requests ∨ id ∈ numbers calls) ∧
      q.first = (numbers calls).head? ∧
      (∀ id, q.first = some id → ∀ later, (q.serve later).2.first = some id) ∧
      q.applied = (applied calls).length ∧
      q.failed = (calls.filter (·.isLost)).length ∧
      ∀ request s failure,
        (((q.handle request).run s).result.failure = some failure ↔
          (∃ ops, .submit ops (.error failure) ∈ (q.handle request).calls s) ∧
            ∀ count fault, failure ≠ .batch count fault) ∧
        (((q.handle request).run s).result.failure = some failure →
          ((q.handle request).run s).result.queue = { q with pending := [] }) := by
  intro requests calls q
  have hStart : ((Queue.ofSize size).pending.length : Int) ≤ size := hSize
  obtain ⟨hServed, hRoom⟩ := (served_ofSize size).serve hStart hSize asked
  refine ⟨hRoom, hServed.batches, hServed.order, hServed.scanned, hServed.first, ?_,
    hServed.done, hServed.lost, ?_⟩
  · intro id hFirst later
    obtain ⟨hLater, -⟩ := hServed.serve hRoom hSize later
    rw [hLater.first, numbers_append, List.head?_append, ← hServed.first, hFirst]
    rfl
  · intro request s failure
    have hHandles := Queue.handles_handle q request s
    exact ⟨hHandles.failure_iff failure, hHandles.queue_of_failure⟩

/-- A batch of two records, a number, and a deletion that is lost, after which another one waits. -/
def askedInTurn : List (Request × Store) :=
  [(.add (.upsert (Catalog.listRecord "/m/a.m3u" 3)), .ofTable .empty 0),
    (.add (.upsert (Catalog.listRecord "/m/b.m3u" 3)), .ofTable .empty 0),
    (.mark 7, .ofTable .empty 0), (.add (.delete 4), .ofTable .empty 0),
    (.flush, { Store.ofTable .empty 0 with failingBatches := [0] }),
    (.add (.delete 5), .ofTable .empty 0)]

theorem nothing_lost_or_repeated_in_turn :
    let calls := ((Queue.ofSize 1).serve askedInTurn).1
    let q := ((Queue.ofSize 1).serve askedInTurn).2
    numbers calls = [1, 2] ∧ (∀ id, id ∈ q.scanned ↔ id = 7 ∨ id ∈ [1, 2]) ∧
      q.first = some 1 ∧ q.failed = 1 ∧
      ((q.handle (.add (.unknown .null))).run (.ofTable .empty 0)).result.queue.pending = [] := by
  intro calls q
  have hNumbers : numbers calls = [1, 2] := by decide +kernel
  obtain ⟨-, -, -, hScanned, hFirst, -, -, hFailed, hRefused⟩ :=
    nothing_lost_or_repeated (by decide : (0 : Int) ≤ 1) askedInTurn
  refine ⟨hNumbers, fun id => ?_, ?_, ?_, ?_⟩
  · rw [hScanned, hNumbers]
    simp [askedInTurn]
  · rw [hFirst, hNumbers]
    rfl
  · rw [hFailed]
    decide +kernel
  · have hFailure : ((q.handle (.add (.unknown .null))).run (.ofTable .empty 0)).result.failure =
        some (.noOperation "None") := by decide +kernel
    rw [(hRefused _ _ _).2 hFailure]

end MediaIndex.Reconcile
