import MediaIndex.Catalog.Location
import MediaIndex.Disk.Create
import MediaIndex.Journal

/-!
# The archive

Catalog files by their paths. Opening one makes what it lacks, and refuses a file whose version is
newer than the one understood here. A file has the name it was opened by: of two paths that lead to
one file over links, each counts for itself. A handle owns the connection to a file; it keeps none if
opening fails.
-/

namespace MediaIndex.Catalog

open Disk (Fault Tree)

abbrev Archive := List (Path × CatalogFile)

/-- What a catalog is known by in the archive. -/
def key (p : Path) : Path :=
  if isInMemory p then p else p.absolute

namespace Archive

def file (a : Archive) (p : Path) : CatalogFile :=
  (a.lookup (key p)).getD .blank

def setFile (a : Archive) (p : Path) (f : CatalogFile) : Archive :=
  (key p, f) :: a.filter fun entry => entry.1 ≠ key p

/-- The catalog that an opening of the path finds. -/
def found (a : Archive) (p : Path) : CatalogFile :=
  if isInMemory p then .blank else a.file p

end Archive

inductive OpenFailure where
  | disk (fault : Fault)
  /-- A path with a zero character is taken by no call. -/
  | zeroCharacter
  | cannotOpen (path : Path) (fault : StoreFault)
  | cannotPrepare (path : Path) (fault : StoreFault)
  | tooNew (path : Path) (version : Int)
  deriving DecidableEq

def OpenFailure.message : OpenFailure → String
  | .disk fault => fault.message
  | .zeroCharacter => "embedded null byte"
  | .cannotOpen path fault => "Cannot open catalog " ++ path.text ++ ": " ++ fault.message
  | .cannotPrepare path fault => "Cannot prepare catalog " ++ path.text ++ ": " ++ fault.message
  | .tooNew path version =>
    "Catalog " ++ path.text ++ " has schema version " ++ toString version ++
      "; this build understands up to " ++ toString currentVersion

/-- What keeps the catalog at a path from being opened or prepared, by what the tree shows first. Only
an interrupt ends the search for what is there. -/
def obstruction (t : Tree) (a : Archive) (p : Path) : Except Fault Obstruction :=
  if isInMemory p then .ok .none
  else match settle t.forMakers linksOnTheWay [] p.names with
  | .error .interrupted => .error .interrupted
  | .error (.failed _ _) => .ok (.unopened .cannotOpen)
  | .ok names => match siteObstruction t.forMakers (a.lookup (key p)) names with
    | .ok .none => .ok (a.found p).obstruction
    | found => found

/-- The catalog file at a path, if it can be looked into. -/
def reach (t : Tree) (a : Archive) (p : Path) : Except Fault (Except StoreFault CatalogFile) := do
  match ← obstruction t a p with
  | .unopened fault | .unprepared fault => return .error fault
  | .none => return .ok (a.found p)

structure Opening where
  notes : List Note
  tree : Tree
  archive : Archive
  failure : Option OpenFailure

def openCatalog (t : Tree) (a : Archive) (p : Path) : Opening :=
  if p.parent.hasZero then ⟨[], t, a, some .zeroCharacter⟩
  else match t.ensureDirectories p.parent with
  | (t, some fault) => ⟨[], t, a, some (.disk fault)⟩
  | (t, none) =>
    let opened : Note := .info ("Opening catalog: " ++ p.text)
    if p.hasZero then ⟨[opened], t, a, some .zeroCharacter⟩
    else match obstruction t a p with
    | .error fault => ⟨[opened], t, a, some (.disk fault)⟩
    | .ok (.unopened fault) => ⟨[opened], t, a, some (.cannotOpen p fault)⟩
    | .ok (.unprepared fault) => ⟨[opened], t, a, some (.cannotPrepare p fault)⟩
    | .ok .none =>
      match (a.found p).prepare with
      | (f, some fault) => ⟨[opened], t, a.setFile p f, some (.cannotPrepare p fault)⟩
      | (f, none) =>
        let a := a.setFile p f
        let prepared : Note := .debug "Database schema initialized."
        if currentVersion < f.version then
          ⟨[opened, prepared], t, a, some (.tooNew p f.version)⟩
        else match f.count with
          | .error fault => ⟨[opened, prepared], t, a, some (.cannotPrepare p fault)⟩
          | .ok count =>
            let ready : Note := .info ("Catalog ready (schema v" ++ toString f.version ++ ", " ++
              Nat.repr count ++ " records)")
            ⟨[opened, prepared, ready], t, a, none⟩

structure Handle where
  path : Path
  patience : Double
  isOpen : Bool
  /-- What the connection remembers while it is open. -/
  memory : Memory

namespace Handle

def usualPatience : Double := Double.ofDecimal false 5 0

def closed (path : Path) (patience : Double) : Handle := ⟨path, patience, false, .fresh⟩

def opened (path : Path) : Handle := ⟨path, usualPatience, true, .fresh⟩

/-- The waiting time in whole milliseconds. A time that is negative or too long for a number of 32
bits is none. -/
def patienceMillis (h : Handle) : Int :=
  match h.patience.mul (Double.ofDecimal false 1000 0) with
  | .finite x => if 0 ≤ x.truncate ∧ x.truncate < 0x80000000 then x.truncate else 0
  | _ => 0

def connect (h : Handle) (t : Tree) (a : Archive) : Handle × Opening :=
  if h.isOpen then (h, ⟨[], t, a, none⟩)
  else
    let opening := openCatalog t a h.path
    ({ h with isOpen := opening.failure.isNone, memory := .fresh }, opening)

def close (h : Handle) : Handle := { h with isOpen := false }

def count (h : Handle) (a : Archive) : Except StoreFault Nat × Handle :=
  let file := a.file h.path
  (file.count, { h with memory := { h.memory with table := file.files.isTable } })

end Handle

end MediaIndex.Catalog
