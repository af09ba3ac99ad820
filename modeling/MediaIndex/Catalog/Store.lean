import MediaIndex.Calendar.Iso
import MediaIndex.Catalog.Memory

/-!
# The store

A catalog as a scan uses it: a table behind a connection that may be closed, locked by another
writer, or fail at times. Each call is one step: a lookup, a range query, a batch, a report query.
A batch that fails leaves the table as it was; whatever becomes of it, the clock goes on.

A table of another shape can be looked into only by what prepares a catalog. Where a store has one,
it is taken to lack what each call asks for: the column that a query names first, and the path that a
batch is to write.
-/

namespace MediaIndex.Catalog

/-- What stands where the table of the catalog should be. -/
inductive Contents where
  | absent
  /-- A table of another shape, with the names of its columns and the number of its rows. -/
  | foreign (columns : List String) (rows : Nat)
  | table (t : Table)
  deriving Inhabited

def Contents.isTable : Contents → Bool
  | .table _ => true
  | _ => false

structure Store where
  contents : Contents
  isOpen : Bool
  locked : Bool
  memory : Memory
  /-- The batches to come that fail, counted from the next one. -/
  failingBatches : List Nat
  /-- The queries to come that fail, counted from the next one. -/
  failingQueries : List Nat
  /-- The seconds from the start of 1970 at which the next batch writes. -/
  clock : Nat

namespace Store

def ofTable (t : Table) (clock : Nat) : Store :=
  ⟨.table t, true, false, .fresh, [], [], clock⟩

def countDown (positions : List Nat) : List Nat :=
  (positions.filter (0 < ·)).map (· - 1)

def readable (s : Store) (column : String) : Except StoreFault Table :=
  if 0 ∈ s.failingQueries then .error .ioError
  else if !s.isOpen then .error .closed
  else match s.contents with
    | .absent => .error .noTable
    | .foreign _ _ => .error (.noColumn column)
    | .table t => .ok t

def query {α : Type} (s : Store) (column : String) (ask : Table → α) :
    Except StoreFault α × Store :=
  ((s.readable column).map ask, { s with
    failingQueries := countDown s.failingQueries
    memory := { s.memory with table := s.contents.isTable } })

def lookup (s : Store) (volume : String) (path : Path) :
    Except StoreFault (Option Entry) × Store :=
  s.query "id" fun t => t.lookup volume path

def idsUnder (s : Store) (volume : String) (root : Path) : Except StoreFault (List Int) × Store :=
  s.query "id" fun t => t.idsUnder volume root

def rowsUnder (s : Store) (root : Path) : Except StoreFault (List Row) × Store :=
  s.query "id" fun t => t.rowsUnder root

def countByType (s : Store) : Except StoreFault (List (Cell × Nat)) × Store :=
  s.query "media_type" fun t => t.countByType

def statingFault (absent : Bool) : Operation → StoreFault
  | .delete _ => if absent then .noTable else .noColumn "id"
  | _ => if absent then .noTable else .foreignTable .path

/-- A batch where the table is missing: its first operation is refused. -/
def refuse (s : Store) (absent : Bool) : List Operation → Except Refusal (List (Option Int))
  | [] => .ok []
  | .unknown v :: _ => .error (.noOperation v)
  | op :: _ => .error (s.memory.refuse s.locked (statingFault absent op) op).1

/-- A fault that any write to the table meets once its values are given. -/
def barrier (s : Store) : Option StoreFault :=
  if s.locked then some .locked else none

def batch (s : Store) (ops : List Operation) :
    Except Refusal (Contents × List (Option Int)) :=
  if 0 ∈ s.failingBatches then .error (.fault .diskFull)
  else if !s.isOpen then .error (.fault .closed)
  else match s.contents with
    | .absent => (s.refuse true ops).map fun ids => (.absent, ids)
    | .foreign columns rows => (s.refuse false ops).map fun ids => (.foreign columns rows, ids)
    | .table t =>
      (t.applyAll s.barrier (isoText s.clock) ops).map fun done => (.table done.1, done.2)

def memoryAfter (s : Store) (ops : List Operation) : Memory :=
  if 0 ∈ s.failingBatches ∨ !s.isOpen then s.memory
  else match s.contents, ops with
    | .table t, ops => s.memory.tried (t.tried s.barrier (isoText s.clock) ops)
    | _, [] | _, .unknown _ :: _ => s.memory
    | .absent, op :: _ => (s.memory.refuse s.locked (statingFault true op) op).2
    | .foreign _ _, op :: _ => (s.memory.refuse s.locked (statingFault false op) op).2

/-- Applies a batch as a whole or not at all. -/
def submit (s : Store) (ops : List Operation) : Except Failure (List (Option Int)) × Store :=
  let later := { s with
    failingBatches := countDown s.failingBatches, clock := s.clock + 1
    memory := s.memoryAfter ops }
  match s.batch ops with
  | .ok (contents, ids) => (.ok ids, { later with contents })
  | .error refusal => (.error (refusal.failure ops.length), later)

def rows (s : Store) : Except StoreFault (List Row) :=
  if !s.isOpen then .error .closed
  else match s.contents with
    | .absent => .error .noTable
    | .foreign _ _ => .error (.noColumn "id")
    | .table t => .ok t.rows

end Store

end MediaIndex.Catalog
