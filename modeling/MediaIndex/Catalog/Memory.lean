import MediaIndex.Catalog.Batch

/-!
# What a connection remembers

A connection knows whether it has seen the table, and it keeps the statement of each kind of
operation that it has tried. Another connection may take the table away meanwhile. An operation
whose statement is kept is then refused later than one that has to be stated anew: its values are
given first, and a lock is met first, unless the statement is known to be stale.
-/

namespace MediaIndex.Catalog

inductive Kept where
  | nothing
  | ready
  | stale
  deriving DecidableEq, Repr

structure Memory where
  /-- The connection has seen the table, and nothing has told it since that the table is gone. -/
  table : Bool
  upserting : Kept
  deleting : Kept
  deriving DecidableEq, Repr

namespace Memory

def fresh : Memory := ⟨true, .nothing, .nothing⟩

def statement (m : Memory) (op : Operation) : Kept :=
  let kept := match op with
    | .upsert _ => m.upserting
    | .delete _ => m.deleting
    | .unknown _ => .nothing
  if kept = .nothing ∧ m.table then .ready else kept

def keep (m : Memory) (kept : Kept) : Operation → Memory
  | .upsert _ => { m with upserting := kept }
  | .delete _ => { m with deleting := kept }
  | .unknown _ => m

def tried (m : Memory) (ops : List Operation) : Memory :=
  ops.foldl (fun m op => match op with
    | .unknown _ => m
    | op => ({ m with table := true } : Memory).keep .ready op) m

/-- How an operation is refused where the table is missing, which `missing` tells, and what is
remembered after it. -/
def refuse (m : Memory) (locked : Bool) (missing : StoreFault) (op : Operation) :
    Refusal × Memory :=
  match op.unfit?, m.statement op with
  | _, .nothing => (.fault missing, m)
  | some refusal, kept => (refusal, m.keep kept op)
  | none, .stale => (.fault missing, m)
  | none, .ready =>
    if locked then (.fault .locked, m.keep .ready op)
    else (.fault missing, ({ m with table := false } : Memory).keep .stale op)

end Memory

end MediaIndex.Catalog
