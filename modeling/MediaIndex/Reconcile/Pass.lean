import MediaIndex.Disk.Volume
import MediaIndex.Media.Intake
import MediaIndex.Reconcile.Freshness
import MediaIndex.Reconcile.Queue
import MediaIndex.Walk.Agenda

/-!
# A pass of reconciliation

One pass over a file or directory brings the catalog in line with the disk. It visits all that is
visible below its root and queues a record for everything new or changed; then it deletes every row
at or below the root that the visits did not confirm. Faults of single paths are told and counted. A
catalog that cannot answer ends the pass.
-/

namespace MediaIndex.Reconcile

open Catalog (Operation)
open Disk (Attributes Fault Tree)
open Walk (Event)

inductive Phase where
  | notStarted
  | walking
  | sweeping
  | closed
  deriving DecidableEq, Repr

inductive Failure where
  | disk (fault : Fault)
  | catalog (cause : Catalog.Failure)
  | walk (root : Path) (cause : Catalog.Failure)
  | cleanup (root : Path) (cause : Catalog.Failure)
  | alreadyRan (root : Path)
  | pendingAtClose (root : Path) (count : Nat)
  deriving DecidableEq

def Failure.message : Failure → String
  | .disk fault => fault.message
  | .catalog cause => cause.message
  | .walk root cause => "Tree walk of " ++ root.text ++ " failed: " ++ cause.message
  | .cleanup root cause => "Cleanup under " ++ root.text ++ " failed: " ++ cause.message
  | .alreadyRan root => "Scan session for " ++ root.text ++ " already ran"
  | .pendingAtClose root count =>
    "Scan session for " ++ root.text ++ " closed with " ++ Nat.repr count ++ " pending operations"

structure Tally where
  visited : Nat
  unchanged : Nat
  queued : Nat
  deleted : Nat
  failed : Nat
  deriving DecidableEq

def Tally.zero : Tally := ⟨0, 0, 0, 0, 0⟩

structure Pass where
  root : Path
  volume : String
  /-- Someone asked to be told of skipped files. -/
  told : Bool
  queue : Queue
  phase : Phase
  tally : Tally

namespace Pass

/-- A pass over a path. Its root is the absolute path, and its volume the one that holds it. -/
def start (t : Tree) (path : Path) (told : Bool) (size : Int) : Except Fault Pass := do
  let root := path.absolute
  let volume ← t.volumeOf root
  return ⟨root, volume.text, told, .ofSize size, .notStarted, .zero⟩

structure Progress where
  pass : Pass
  failure : Option Failure

def going (p : Pass) : Dialogue Progress := .finish ⟨p, none⟩

def stopped (p : Pass) (failure : Failure) : Dialogue Progress :=
  .finish ⟨p, some failure⟩

def Progress.andThen (d : Dialogue Progress) (next : Pass → Dialogue Progress) :
    Dialogue Progress :=
  d.andThen fun progress => match progress.failure with
    | none => next progress.pass
    | some _ => .finish progress

def enqueue (p : Pass) (op : Operation) (count : Tally → Tally) : Dialogue Progress :=
  (p.queue.add op).andThen fun progress =>
    let p := { p with queue := progress.queue }
    match progress.failure with
    | none => going { p with tally := count p.tally }
    | some failure => stopped p (.catalog failure)

def flush (p : Pass) : Dialogue Progress :=
  p.queue.flush.andThen fun progress =>
    .finish ⟨{ p with queue := progress.queue }, progress.failure.map .catalog⟩

def visit (t : Tree) (p : Pass) (a : Attributes) : Dialogue Progress :=
  let p := { p with tally := { p.tally with visited := p.tally.visited + 1 } }
  .lookup p.volume a.path fun
    | .error fault => stopped p (.walk p.root (.lookup a.path fault))
    | .ok entry => match freshness a entry with
      | .unchanged entry =>
        going { p with
          queue := p.queue.mark entry.id
          tally := { p.tally with unchanged := p.tally.unchanged + 1 } }
      | .stale | .new => match Media.takeIn t p.told a p.volume with
        | .error fault => stopped p (.disk fault)
        | .ok intake => .tellAll intake.notes <| match intake.record with
          | none => going p
          | some record =>
            p.enqueue (.upsert record) fun tally => { tally with queued := tally.queued + 1 }

def observe (t : Tree) (p : Pass) : Event → Dialogue Progress
  | .visit a => p.visit t a
  | .hidden path => .tell (.debug ("Skipping hidden directory " ++ path.text)) (going p)
  | .failed _ .interrupted => stopped p (.disk .interrupted)
  | .failed path fault =>
    .tell (.warning ("Failed to visit " ++ path.text ++ ": " ++ fault.message))
      (going { p with tally := { p.tally with failed := p.tally.failed + 1 } })
  | .leave _ => going p

def observeAll (t : Tree) : List Event → Pass → Dialogue Progress
  | [], p => going p
  | event :: events, p => Progress.andThen (p.observe t event) (observeAll t events)

def clean : List Int → Pass → Dialogue Progress
  | [], p => going p
  | id :: ids, p =>
    if id ∈ p.queue.scanned then clean ids p
    else .tell (.debug ("Cleaning " ++ toString id)) <|
      Progress.andThen
        (p.enqueue (.delete id) fun tally => { tally with deleted := tally.deleted + 1 })
        (clean ids)

def sweep (p : Pass) : Dialogue Progress :=
  .idsUnder p.volume p.root fun
    | .error fault => stopped p (.cleanup p.root (.range p.root fault))
    | .ok ids => Progress.andThen (clean ids p) flush

def summary (p : Pass) : Note :=
  .info ("Scan of " ++ p.root.text ++ " complete: " ++ Nat.repr p.tally.visited ++ " visited, " ++
    Nat.repr p.tally.unchanged ++ " unchanged, " ++ Nat.repr p.tally.queued ++ " updated, " ++
    Nat.repr p.tally.deleted ++ " removed, " ++ Nat.repr p.queue.failed ++ " failed batches.")

def startDirectory (t : Tree) (p : Pass) : Except Fault Path := do
  return if ← t.isDirectory? p.root then p.root else p.root.parent

def isHidden (t : Tree) (p : Pass) : Except Fault Bool := do
  Walk.isHiddenLocation t (← p.startDirectory t)

def explore (t : Tree) (p : Pass) : Dialogue Progress :=
  .tell (.debug ("Walking " ++ p.root.text ++ " (volume=" ++ p.volume ++ ")")) <|
    Progress.andThen (observeAll t (Walk.walk t p.root) p) flush

def finish (p : Pass) : Dialogue Progress :=
  Progress.andThen (sweep { p with phase := .sweeping }) fun p => .tell p.summary (going p)

/-- Runs a pass, which can be done once. A hidden location is not walked, so that all its rows
go. -/
def run (t : Tree) (p : Pass) : Dialogue Progress :=
  if p.phase ≠ .notStarted then stopped p (.alreadyRan p.root)
  else match p.isHidden t with
    | .error fault => stopped p (.disk fault)
    | .ok true => .tell (.info ("Skipping hidden location " ++ p.root.text)) p.finish
    | .ok false => Progress.andThen (explore t { p with phase := .walking }) finish

def close (p : Pass) : Pass × Option Failure :=
  if p.queue.pending.isEmpty then ({ p with phase := .closed }, none)
  else (p, some (.pendingAtClose p.root p.queue.pending.length))

def abandon (p : Pass) : Pass :=
  { p with queue := { p.queue with pending := [] }, phase := .closed }

end Pass

end MediaIndex.Reconcile
