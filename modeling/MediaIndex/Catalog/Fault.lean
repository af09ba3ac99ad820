import MediaIndex.Catalog.Column
import MediaIndex.Media.Value
import MediaIndex.Path.Basic

/-!
# Faults of the catalog

Why the table of the catalog refuses an operation, and how a failed lookup, range query or batch is
stated. A number too wide for the table, or something that is no operation, is not a fault of the
table; such a failure is never set aside.
-/

namespace MediaIndex.Catalog

inductive StoreFault where
  | closed
  | diskFull
  | ioError
  | locked
  | noTable
  | noColumn (name : String)
  /-- The table that stands in the place of the catalog's lacks a column to write. -/
  | foreignTable (column : Column)
  | missingValue (column : Column)
  | unboundKind (position : Nat) (kind : String)
  | tableNamed (name : String)
  | indexNamed (name : String)
  | notACatalog
  | cannotOpen
  | readOnly
  deriving DecidableEq

def StoreFault.message : StoreFault → String
  | closed => "Cannot operate on a closed database."
  | diskFull => "disk full"
  | ioError => "disk I/O error"
  | locked => "database is locked"
  | noTable => "no such table: files"
  | noColumn name => "no such column: " ++ name
  | foreignTable column => "table files has no column named " ++ column.name
  | missingValue column => "NOT NULL constraint failed: files." ++ column.name
  | unboundKind position kind =>
    "Error binding parameter " ++ Nat.repr position ++ ": type '" ++ kind ++ "' is not supported"
  | tableNamed name => "there is already a table named " ++ name
  | indexNamed name => "there is already an index named " ++ name
  | notACatalog => "file is not a database"
  | cannotOpen => "unable to open database file"
  | readOnly => "attempt to write a readonly database"

inductive Failure where
  | lookup (path : Path) (fault : StoreFault)
  | range (root : Path) (fault : StoreFault)
  | batch (size : Nat) (fault : StoreFault)
  | tooWide
  | noOperation (shown : String)
  deriving DecidableEq

namespace Failure

def message : Failure → String
  | lookup path fault => "Lookup of " ++ path.text ++ " failed: " ++ fault.message
  | range root fault => "Range query under " ++ root.text ++ " failed: " ++ fault.message
  | batch size fault => "Batch of " ++ Nat.repr size ++ " operations failed: " ++ fault.message
  | tooWide => "Python int too large to convert to SQLite INTEGER"
  | noOperation shown => "Unknown catalog operation: " ++ shown

def fault? : Failure → Option StoreFault
  | lookup _ fault | range _ fault | batch _ fault => some fault
  | tooWide | noOperation _ => none

end Failure

end MediaIndex.Catalog
