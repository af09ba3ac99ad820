import MediaIndex.Catalog.Table
import MediaIndex.Disk.Listing

/-!
# Freshness

Whether the catalog still describes what is on disk. Size and second of modification are all that is
compared; a directory that has a row is never stale.
-/

namespace MediaIndex.Reconcile

open Catalog (Entry)
open Disk (Attributes)

inductive Freshness where
  /-- The catalog describes the path, in this entry. -/
  | unchanged (entry : Entry)
  | stale
  | new

def matchesEntry (a : Attributes) (entry : Entry) : Bool :=
  entry.modified.isInt a.modifiedSecond && entry.size.isInt a.size

def freshness (a : Attributes) : Option Entry → Freshness
  | none => .new
  | some entry => if a.isDirectory || matchesEntry a entry then .unchanged entry else .stale

end MediaIndex.Reconcile
