import MediaIndex.Catalog.Store
import MediaIndex.Journal

/-!
# Dialogues with the catalog

What a scan does is a dialogue: it tells something, or it makes one call to the catalog and goes on
with the answer, until it finishes. Every call is one step, so that what several dialogues do to one
catalog in turns, and where one of them is cut off, can be said step by step. Running a dialogue on
a store answers all its calls in order.
-/

namespace MediaIndex.Reconcile

open Catalog (Entry Operation Store StoreFault)

inductive Dialogue (α : Type) where
  | finish (result : α)
  | tell (note : Note) (next : Dialogue α)
  | lookup (volume : String) (path : Path)
      (next : Except StoreFault (Option Entry) → Dialogue α)
  | idsUnder (volume : String) (root : Path) (next : Except StoreFault (List Int) → Dialogue α)
  | submit (ops : List Operation)
      (next : Except Catalog.Failure (List (Option Int)) → Dialogue α)

namespace Dialogue

def andThen {α β : Type} : Dialogue α → (α → Dialogue β) → Dialogue β
  | finish a, f => f a
  | tell note next, f => tell note (next.andThen f)
  | lookup volume path next, f => lookup volume path fun reply => (next reply).andThen f
  | idsUnder volume root next, f => idsUnder volume root fun reply => (next reply).andThen f
  | submit ops next, f => submit ops fun reply => (next reply).andThen f

instance : Monad Dialogue where
  pure := finish
  bind := andThen

structure Run (α : Type) where
  result : α
  notes : List Note
  store : Store

def Run.after {α : Type} (note : Note) (run : Run α) : Run α :=
  { run with notes := note :: run.notes }

def run {α : Type} : Dialogue α → Store → Run α
  | finish a, s => ⟨a, [], s⟩
  | tell note next, s => (next.run s).after note
  | lookup volume path next, s =>
    let (reply, s) := s.lookup volume path
    (next reply).run s
  | idsUnder volume root next, s =>
    let (reply, s) := s.idsUnder volume root
    (next reply).run s
  | submit ops next, s =>
    let (reply, s) := s.submit ops
    (next reply).run s

def step {α : Type} : Dialogue α → Store → Run (Dialogue α)
  | finish a, s => ⟨finish a, [], s⟩
  | tell note next, s => (next.step s).after note
  | lookup volume path next, s =>
    let (reply, s) := s.lookup volume path
    ⟨next reply, [], s⟩
  | idsUnder volume root next, s =>
    let (reply, s) := s.idsUnder volume root
    ⟨next reply, [], s⟩
  | submit ops next, s =>
    let (reply, s) := s.submit ops
    ⟨next reply, [], s⟩

def tellAll {α : Type} : List Note → Dialogue α → Dialogue α
  | [], next => next
  | note :: notes, next => tell note (tellAll notes next)

def apply {α : Type} (ops : List Operation)
    (next : Except Catalog.Failure (List (Option Int)) → Dialogue α) : Dialogue α :=
  submit ops fun
    | .ok ids =>
      tell (.debug ("Applied batch of " ++ Nat.repr ops.length ++ " operations.")) (next (.ok ids))
    | .error failure => next (.error failure)

end Dialogue

end MediaIndex.Reconcile
