import MediaIndex.Catalog.Archive
import MediaIndex.CommandLine.Options
import MediaIndex.Reconcile.Scan
import MediaIndex.Report.Inventory

/-!
# A run of the program

A run opens its log file, brings the roots into canonical form, opens the catalog, and then either
writes a report or scans the roots one after the other. Whatever fails once the catalog is to be
opened is told and makes the run fail; what fails before that leaves the program. The log, the catalog
and the report are files of their own: no two of them are one file, and the scans see none of them.
-/

namespace MediaIndex.CommandLine

open Catalog (Archive)
open Disk (Fault Tree)

structure World where
  tree : Tree
  archive : Archive
  clock : Nat

inductive Failure where
  | disk (fault : Fault)
  | zeroCharacter
  /-- A root is a link that leads back to itself. -/
  | linkLoop (path : Path)
  /-- A root leads over links to ever longer paths. -/
  | endlessLinks
  | noCatalog
  | opening (failure : Catalog.OpenFailure)
  | scan (failure : Reconcile.Failure)
  | report (failure : Report.Failure)
  deriving DecidableEq

namespace Failure

def message : Failure → String
  | disk fault => fault.message
  | zeroCharacter => "embedded null byte"
  | linkLoop path => "Symlink loop from " ++ Text.quoted path.text
  | endlessLinks => "maximum recursion depth exceeded in comparison"
  | noCatalog => "expected str, bytes or os.PathLike object, not list"
  | opening failure => failure.message
  | scan failure => failure.message
  | report failure => failure.message

def isInterrupt (f : Failure) : Bool :=
  f = disk .interrupted ∨ f = opening (.disk .interrupted) ∨ f = scan (.disk .interrupted) ∨
    f = report (.disk .interrupted)

end Failure

inductive Ending where
  | done
  | cancelled
  | failed (failure : Failure)
  | left (failure : Failure)
  deriving DecidableEq

def Ending.exitCode? : Ending → Option Nat
  | done => some 0
  | cancelled | failed _ => some 1
  | left _ => none

structure Outcome where
  notes : List Note
  ending : Ending
  logFile : Option Path
  report : Option (String × String)
  world : World

structure Work where
  notes : List Note
  world : World
  report : Option (String × String)
  failure : Option Failure

namespace Work

def none (w : World) : Work := ⟨[], w, Option.none, Option.none⟩

def tell (work : Work) (note : Note) : Work :=
  { work with notes := work.notes ++ [note] }

def fail (work : Work) (failure : Failure) : Work :=
  { work with failure := some failure }

def andThen (work : Work) (next : Work → Work) : Work :=
  if work.failure.isSome then work else next work

end Work

/-- Opening the log file, whose double dots are settled on the text first. -/
def openLog (t : Tree) (path : Path) : Tree × Option Failure :=
  if path.parent.hasZero then (t, some .zeroCharacter)
  else match t.ensureDirectories path.parent with
  | (t, some fault) => (t, some (.disk fault))
  | (t, none) =>
    if path.hasZero then (t, some .zeroCharacter)
    else match t.openToWrite path.absolute.text with
    | .ok () => (t, none)
    | .error fault => (t, some (.disk (fault.toldOf path.text)))

/-- A root in canonical form. A root that leads back to itself or on without end is refused; one
that is not there is not. -/
def canonicalRoot (t : Tree) (root : Path) : Except Failure Path :=
  if root.hasZero then .error .zeroCharacter
  else do
    let some path ← (t.canonical root).mapError .disk | .error .endlessLinks
    match t.stat path with
    | .error (.failed .tooManyLinks _) => .error (.linkLoop path)
    | .error .interrupted => .error (.disk .interrupted)
    | _ => .ok path

def openWork (w : World) (db : Path) : Work :=
  let opening := Catalog.openCatalog w.tree w.archive db
  let world := { w with tree := opening.tree, archive := opening.archive }
  ⟨opening.notes, world, none, opening.failure.map .opening⟩

def converseOver {α : Type} (w : World) (h : Catalog.Handle) (d : Reconcile.Dialogue α) :
    α × List Note × World × Catalog.Handle :=
  let file := w.archive.file h.path
  let run := d.run (file.store h.memory w.clock)
  (run.result, run.notes,
    { w with archive := w.archive.setFile h.path { file with files := run.store.contents }
             clock := run.store.clock },
    { h with memory := run.store.memory })

def converse {α : Type} (w : World) (db : Path) (d : Reconcile.Dialogue α) :
    α × List Note × World :=
  let (result, notes, w, _) := converseOver w (.opened db) d
  (result, notes, w)

def recordNote (root : Path) (id : Option Int) : Note :=
  .info (root.text ++ " -> record " ++ (match id with
    | some n => toString n
    | none => "None"))

def scanRoot (db root : Path) (work : Work) : Work :=
  match work.world.tree.isFile? root with
  | .error fault => work.fail (.disk fault)
  | .ok true =>
    let (result, notes, world) := converse work.world db
      (Reconcile.scanFile work.world.tree false root)
    let work := { work with notes := work.notes ++ notes, world }
    match result with
    | .error failure => work.fail (.scan failure)
    | .ok id => work.tell (recordNote root id)
  | .ok false =>
    let (result, notes, world) := converse work.world db
      (Reconcile.scanDirectory work.world.tree false root)
    let work := { work with notes := work.notes ++ notes, world }
    match result with
    | .error failure => work.fail (.scan failure)
    | .ok () => work

def tellCounts (db : Path) (work : Work) : Work :=
  match (Report.summary ((work.world.archive.file db).store .fresh work.world.clock)).1 with
  | .error failure => work.fail (.report failure)
  | .ok counts => counts.foldl
    (fun work count => work.tell (.info ("  " ++ count.1 ++ ": " ++ Nat.repr count.2))) work

def writeReport (db : Path) (roots : List Path) (fileName : String) (work : Work) : Work :=
  let work := (work.tell (.info "ENTERING REPORT MODE")).tell (Report.openingNote fileName)
  if Text.hasZero fileName then work.fail .zeroCharacter
  else match work.world.tree.openToWrite fileName with
  | .error fault => work.fail (.disk fault)
  | .ok () =>
    let store := (work.world.archive.file db).store .fresh work.world.clock
    let inventory := (Report.inventory work.world.tree store roots).1
    let work := { work with report := some (fileName, inventory.text) }
    match inventory.failure with
    | some failure => work.fail (.report failure)
    | none => work.tell (Report.closingNote inventory.count)

def Options.leastLevel (o : Options) : Level :=
  if o.verbose then .debug else .info

def Options.reportFile? (o : Options) : Option String :=
  o.report.value?.filter (· ≠ "")

def Options.catalogText (o : Options) : String :=
  match o.db with
  | .value db => db.text
  | _ => "[]"

def scanRoots (o : Options) (db : Path) (roots : List Path) (work : Work) : Work :=
  let work := roots.foldl (fun work root => work.andThen (scanRoot db root)) work
  if o.stats then work.andThen (tellCounts db) else work

def useCatalog (o : Options) (db : Path) (roots : List Path) (start : Work) : Work :=
  match o.reportFile? with
  | some fileName => writeReport db roots fileName start
  | none => (scanRoots o db roots start).andThen (·.tell (.info "Scan phase complete."))

def work (o : Options) (roots : List Path) (w : World) : Work :=
  match o.db.value? with
  | some db => (openWork w db).andThen (useCatalog o db roots)
  | none => (Work.none w).fail .noCatalog

def ending (work : Work) : Ending :=
  match work.failure with
  | none => .done
  | some failure => if failure.isInterrupt then .cancelled else .failed failure

def endingNotes : Ending → List Note
  | .cancelled => [.warning "Scan cancelled by user."]
  | _ => []

def fatalText : String := "Fatal error during scan."

def run (o : Options) (w : World) : Outcome :=
  let logged := match o.logFile.value? with
    | some path => openLog w.tree path
    | none => (w.tree, none)
  let w := { w with tree := logged.1 }
  match logged.2 with
  | some failure => ⟨[], .left failure, none, none, w⟩
  | none => match o.roots.mapM (canonicalRoot w.tree) with
    | .error failure => ⟨[], .left failure, o.logFile.value?, none, w⟩
    | .ok roots =>
      let work := work o roots w
      let ending := ending work
      let notes := [.info "=== Media Catalog Started ===", .info ("Catalog: " ++ o.catalogText)]
      ⟨notes ++ work.notes ++ endingNotes ending, ending, o.logFile.value?, work.report,
        work.world⟩

end MediaIndex.CommandLine
