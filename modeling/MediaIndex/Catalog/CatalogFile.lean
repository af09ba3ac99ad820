import MediaIndex.Catalog.Store

/-!
# Catalog files

A catalog in a file holds the table of files, a table of versions, and indexes. Preparing one makes
what is missing. Names of tables, of their columns and of indexes are in small letters. Tables are
ordinary ones, and a catalog that has been prepared can be written unless it is locked.
-/

namespace MediaIndex.Catalog

def currentVersion : Int := 1

/-- The indexes of the table of files, each with the columns that it goes by. -/
def indexColumns : List (String × List Column) :=
  [("idx_files_volume_path", [.volumeName, .path]), ("idx_files_media_type", [.mediaType])]

/-- What keeps a catalog from being opened, or from being prepared once it is open. -/
inductive Obstruction where
  | none
  | unopened (fault : StoreFault)
  | unprepared (fault : StoreFault)
  deriving DecidableEq, Inhabited

structure CatalogFile where
  versions : Option (List Int)
  files : Contents
  indexes : List String
  /-- The names of the other tables. -/
  tables : List String
  /-- The file keeps a log ahead of its writes, so that it can be read while it is written. -/
  writesAhead : Bool
  /-- Another connection holds the lock for writing. -/
  locked : Bool
  /-- What the tree does not show: the files kept beside the catalog cannot be made, for one. -/
  obstruction : Obstruction
  deriving Inhabited

namespace CatalogFile

def blank : CatalogFile := ⟨none, .absent, [], [], false, false, .none⟩

def change (f : CatalogFile) (next : CatalogFile) : Except StoreFault CatalogFile :=
  if f.locked then .error .locked else .ok next

def writeAhead (f : CatalogFile) : Except StoreFault CatalogFile :=
  if f.writesAhead then .ok f else f.change { f with writesAhead := true }

/-- A table is made unless its name is taken by an index. -/
def makeTable (f : CatalogFile) (name : String) (next : CatalogFile) :
    Except StoreFault CatalogFile :=
  if name ∈ f.indexes then .error (.indexNamed name) else f.change next

def makeVersions (f : CatalogFile) : Except StoreFault CatalogFile :=
  match f.versions with
  | some _ => .ok f
  | none => f.makeTable "schema_version" { f with versions := some [] }

def stateVersion (f : CatalogFile) : Except StoreFault CatalogFile :=
  f.change { f with versions := some [currentVersion] }

def makeFiles (f : CatalogFile) : Except StoreFault CatalogFile :=
  match f.files with
  | .absent => f.makeTable "files" { f with files := .table .empty }
  | _ => .ok f

/-- Why an index cannot be made: its name is taken by a table, or a column of it is lacking. -/
def indexFault? (f : CatalogFile) (index : String × List Column) : Option StoreFault :=
  if index.1 ∈ f.tables then some (.tableNamed index.1)
  else match f.files with
    | .absent => some .noTable
    | .foreign columns _ =>
      (index.2.find? fun column => column.name ∉ columns).map fun column => .noColumn column.name
    | .table _ => none

def makeIndex (index : String × List Column) (f : CatalogFile) : Except StoreFault CatalogFile :=
  if index.1 ∈ f.indexes then .ok f
  else match f.indexFault? index with
    | some fault => .error fault
    | none => f.change { f with indexes := f.indexes ++ [index.1] }

/-- Makes one thing after the other; what was made before a step that fails stays. -/
def makeAll (f : CatalogFile) :
    List (CatalogFile → Except StoreFault CatalogFile) → CatalogFile × Option StoreFault
  | [] => (f, none)
  | make :: rest => match make f with
    | .ok next => next.makeAll rest
    | .error fault => (f, some fault)

/-- The table of files and its indexes. -/
def furnishings : List (CatalogFile → Except StoreFault CatalogFile) :=
  makeFiles :: indexColumns.map makeIndex

/-- Makes what is missing, in order. A version is stated only together with all that follows it. -/
def prepare (f : CatalogFile) : CatalogFile × Option StoreFault :=
  match f.makeAll [writeAhead, makeVersions] with
  | (f, some fault) => (f, some fault)
  | (f, none) =>
    if f.versions = some [] then
      match f.makeAll (stateVersion :: furnishings) with
      | (_, some fault) => (f, some fault)
      | (f, none) => (f, none)
    else f.makeAll furnishings

/-- Preparing the file would change nothing in it. -/
def isComplete (f : CatalogFile) : Bool :=
  f.writesAhead && f.versions.any (!·.isEmpty) && (f.files matches .table _ | .foreign _ _) &&
    indexColumns.all fun index => f.indexes.contains index.1

def version (f : CatalogFile) : Int :=
  match f.versions with
  | some (v :: vs) => vs.foldl max v
  | _ => 0

def count (f : CatalogFile) : Except StoreFault Nat :=
  match f.files with
  | .absent => .error .noTable
  | .foreign _ rows => .ok rows
  | .table t => .ok t.rows.length

def store (f : CatalogFile) (memory : Memory) (clock : Nat) : Store :=
  ⟨f.files, true, f.locked, memory, [], [], clock⟩

end CatalogFile

end MediaIndex.Catalog
