import MediaIndex.Catalog.Store
import MediaIndex.Disk.Listing
import MediaIndex.Journal
import MediaIndex.Media.Category
import MediaIndex.Report.Csv

/-!
# The inventory

A report on the catalog: one row for each record under the given roots, compared with what is on
disk now; and how many records there are of each media type.
-/

namespace MediaIndex.Report

open Catalog (Cell Row Store StoreFault)
open Disk (Fault Tree)

inductive Failure where
  | disk (fault : Fault)
  /-- A path with a zero character is taken by no call. -/
  | zeroCharacter
  | store (fault : StoreFault)
  /-- Media types of two kinds have no common order. -/
  | unordered (first second : String)
  deriving DecidableEq

def Failure.message : Failure → String
  | .disk fault => fault.message
  | .zeroCharacter => "embedded null byte"
  | .store fault => fault.message
  | .unordered first second =>
    "'<' not supported between instances of '" ++ first ++ "' and '" ++ second ++ "'"

def cellText : Cell → String
  | .null => ""
  | .integer n => toString n
  | .real x => DoubleLayout.shown.text x
  | .text s => s

def typeName (type : Cell) : String :=
  match type with
  | .integer n => (Media.Category.codeName? n).getD (toString n)
  | .null => "None"
  | other => cellText other

inductive Status where
  | present
  | changed
  | missing
  deriving DecidableEq

def Status.name : Status → String
  | present => "Present"
  | changed => "Changed"
  | missing => "Missing"

/-- Compares a row with the disk. Whatever cannot be examined is missing, but for a path that no call
takes. -/
def status (t : Tree) (r : Row) : Except Failure Status :=
  let path := Path.ofText (cellText (r.cells .path))
  if path.hasZero then .error .zeroCharacter
  else match t.stat path with
  | .error .interrupted => .error (.disk .interrupted)
  | .error (.failed _ _) => .ok .missing
  | .ok (_, node) => do
    if ← (t.isDirectory? path).mapError .disk then return .present
    let sameTime := (r.cells .dateModified).isInt node.modifiedOrDefault.truncate
    let sameSize := (r.cells .size).isInt node.sizeOrDefault
    return if sameTime && sameSize then .present else .changed

def headings : List String :=
  ["Path", "Status", "Media Type", "MIME Type", "Size", "Modified", "Title"]

def fields (r : Row) (status : Status) : List String :=
  [cellText (r.cells .path), status.name, typeName (r.cells .mediaType),
    cellText (r.cells .mimeType), cellText (r.cells .size), cellText (r.cells .dateModified),
    cellText (r.cells .title)]

structure Inventory where
  text : String
  count : Nat
  failure : Option Failure

def Inventory.addRows (t : Tree) (inventory : Inventory) : List Row → Inventory
  | [] => inventory
  | r :: rows => match status t r with
    | .error failure => { inventory with failure := some failure }
    | .ok status =>
      addRows t ⟨inventory.text ++ csvRow (fields r status), inventory.count + 1, none⟩ rows

def Inventory.addRoots (t : Tree) (inventory : Inventory) (s : Store) :
    List Path → Inventory × Store
  | [] => (inventory, s)
  | root :: roots => match s.rowsUnder root with
    | (.error fault, s) => ({ inventory with failure := some (.store fault) }, s)
    | (.ok rows, s) =>
      let added := inventory.addRows t rows
      if added.failure.isSome then (added, s) else addRoots t added s roots

def inventory (t : Tree) (s : Store) (roots : List Path) : Inventory × Store :=
  Inventory.addRoots t ⟨csvRow headings, 0, none⟩ s roots

def openingNote (fileName : String) : Note :=
  .info ("Generating catalog report -> " ++ fileName)

def closingNote (count : Nat) : Note :=
  .info ("Report complete. " ++ Nat.repr count ++ " catalog records.")

def kindName : Cell → String
  | .null => "NoneType"
  | .integer _ => "int"
  | .real _ => "float"
  | .text _ => "str"

def firstUnordered? : List Cell → Option (Cell × Cell)
  | a :: b :: rest =>
    if (kindName a = "str") ≠ (kindName b = "str") then some (b, a)
    else firstUnordered? (b :: rest)
  | _ => none

def typeCounts (s : Store) : Except Failure (List (Cell × Nat)) × Store :=
  match s.countByType with
  | (.error fault, s) => (.error (.store fault), s)
  | (.ok counts, s) =>
    match firstUnordered? (counts.map (·.1)) with
    | some (a, b) => (.error (.unordered (kindName a) (kindName b)), s)
    | none => (.ok counts, s)

def summary (s : Store) : Except Failure (List (String × Nat)) × Store :=
  let (counts, s) := typeCounts s
  (counts.map fun counts => counts.map fun count => (typeName count.1, count.2), s)

end MediaIndex.Report
