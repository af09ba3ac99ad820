import MediaIndex.Catalog.Cell
import MediaIndex.Catalog.Record

/-!
# The table of files

One row for each path. A row keeps its number and the date it was added for as long as it stays, and
a number is never used again: the table remembers how far it has counted, and writing a record
always counts on by one.
-/

namespace MediaIndex.Catalog

structure Row where
  id : Int
  cells : Column → Cell
  added : String
  deriving Inhabited

namespace Row

def path? (r : Row) : Option String :=
  match r.cells .path with
  | .text s => some s
  | _ => none

def hasText (r : Row) (c : Column) (s : String) : Bool :=
  r.cells c == .text s

end Row

/-- The rows by increasing number, and the greatest number used so far. -/
structure Table where
  rows : List Row
  counter : Int
  deriving Inhabited

structure Entry where
  id : Int
  size : Cell
  modified : Cell
  deriving DecidableEq

namespace Table

def empty : Table := ⟨[], 0⟩

/-- The row of a path, which there is at most one of. -/
def rowOf? (t : Table) (path : Cell) : Option Row :=
  t.rows.find? fun r => r.cells .path == path

def lookup (t : Table) (volume : String) (path : Path) : Option Entry :=
  (t.rows.find? fun r => r.hasText .volumeName volume && r.hasText .path path.text).map fun r =>
    ⟨r.id, r.cells .size, r.cells .dateModified⟩

def belowText (root : Path) : List Char :=
  let text := root.text.toList
  if text.getLast? = some '/' then text else text ++ ['/']

/-- The text of a path is that of the root, or starts with it and a slash. The start of a text ends
at the first zero character. -/
def atOrBelow (root : Path) (path : String) : Bool :=
  path = root.text || (belowText root).isPrefixOf (path.toList.takeWhile (· ≠ Char.ofNat 0))

def isUnder (root : Path) (r : Row) : Bool :=
  r.path?.any (atOrBelow root)

def idsUnder (t : Table) (volume : String) (root : Path) : List Int :=
  ((t.rows.filter fun r => r.hasText .volumeName volume && isUnder root r).map (·.id)).mergeSort
    fun a b => decide (b ≤ a)

def rowsUnder (t : Table) (root : Path) : List Row :=
  (t.rows.filter (isUnder root)).mergeSort fun a b => !(b.cells .path).lt (a.cells .path)

def countByType (t : Table) : List (Cell × Nat) :=
  let types := t.rows.map fun r => r.cells .mediaType
  (types.eraseDups.mergeSort fun a b => !b.lt a).map fun type => (type, types.count type)

/-- Writes the cells of a record: the row of its path is replaced but for its number and date, or a
row is added. Either way the table counts on. The numbers are taken to suffice: a database counts up
to 2⁶³ - 1, and a table that has used that number takes no further record. -/
def write (t : Table) (cells : Column → Cell) (now : String) : Table × Int :=
  let counter := t.counter + 1
  match t.rowOf? (cells .path) with
  | some old =>
    (⟨t.rows.map fun r => if r.id = old.id then { r with cells } else r, counter⟩, old.id)
  | none => (⟨t.rows ++ [⟨counter, cells, now⟩], counter⟩, counter)

def delete (t : Table) (id : Int) : Table :=
  { t with rows := t.rows.filter fun r => r.id ≠ id }

end Table

end MediaIndex.Catalog
