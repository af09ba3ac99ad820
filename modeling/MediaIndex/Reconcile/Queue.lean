import MediaIndex.Reconcile.Dialogue

/-!
# The queue of operations

Operations wait until there are more of them than the queue holds, and are then submitted as one
batch. A batch that fails is told of and dropped; its operations are not tried again. The queue
remembers the numbers of the rows that its batches wrote.
-/

namespace MediaIndex.Reconcile

open Catalog (Operation)

structure Queue where
  size : Int
  pending : List Operation
  /-- The rows that were written or confirmed. -/
  scanned : List Int
  first : Option Int
  applied : Nat
  failed : Nat

namespace Queue

def usualSize : Int := 32

def ofSize (size : Int) : Queue := ⟨size, [], [], none, 0, 0⟩

def mark (q : Queue) (id : Int) : Queue :=
  if id ∈ q.scanned then q else { q with scanned := q.scanned ++ [id] }

def collect (q : Queue) (ids : List (Option Int)) : Queue :=
  (ids.filterMap id).foldl (fun q id => { q.mark id with first := q.first <|> some id }) q

structure Progress where
  queue : Queue
  failure : Option Catalog.Failure

/-- Submits what waits. Only a failure of the batch as such is set aside; any other one goes on,
and the operations are dropped all the same. -/
def flush (q : Queue) : Dialogue Progress :=
  if q.pending.isEmpty then .finish ⟨q, none⟩
  else
    let emptied := { q with pending := [] }
    .apply q.pending fun
      | .ok ids =>
        .finish ⟨{ emptied with applied := q.applied + q.pending.length }.collect ids, none⟩
      | .error (.batch size fault) =>
        .tell (.warning ("Failed to apply: " ++ (Catalog.Failure.batch size fault).message))
          (.finish ⟨{ emptied with failed := q.failed + 1 }, none⟩)
      | .error failure => .finish ⟨emptied, some failure⟩

/-- Lets an operation wait, and submits all that wait if they are too many. -/
def add (q : Queue) (op : Operation) : Dialogue Progress :=
  let q := { q with pending := q.pending ++ [op] }
  if q.size < q.pending.length then q.flush else .finish ⟨q, none⟩

end Queue

end MediaIndex.Reconcile
