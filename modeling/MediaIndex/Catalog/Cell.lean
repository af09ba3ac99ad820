import MediaIndex.Catalog.Fault
import MediaIndex.Number.Column

/-!
# Cells

What the table stores in a column of a row. A value is first given to the table, which takes no
lists, named values or quotients, and no integer of more than 64 bits; then the column converts it:
an integer column turns numerals and whole numbers into integers, a text column turns numbers into
text.
-/

namespace MediaIndex.Catalog

open Media (Value)

inductive Cell where
  | null
  | integer (n : Int)
  | real (x : Double)
  | text (s : String)
  deriving DecidableEq, Inhabited

inductive Unbound where
  | tooWide
  | kind (name : String)
  deriving DecidableEq

def fitsWord (n : Int) : Bool :=
  -0x8000000000000000 ≤ n && n < 0x8000000000000000

namespace Cell

/-- A value as it is given to the table. What is no number at all becomes null. -/
def bind (v : Value) : Except Unbound Cell :=
  match v with
  | .null => .ok null
  | .flag on => .ok (integer (if on then 1 else 0))
  | .int n => if fitsWord n then .ok (integer n) else .error .tooWide
  | .float .nan => .ok null
  | .float x => .ok (real x)
  | .text s => .ok (text s)
  | .ratio _ _ | .list _ | .dict _ => .error (.kind v.kind)

/-- A real number as an integer column keeps it: whole ones of less than 64 bits as integers. -/
def ofReal (x : Double) : Cell :=
  match x with
  | .finite b =>
    if b.isWhole ∧ -0x8000000000000000 < b.truncate ∧ b.truncate < 0x8000000000000000 then
      integer b.truncate
    else real x
  | _ => real x

def ofNumeral (s : String) : Cell :=
  match Numeral.column? s.toList with
  | none => text s
  | some n => if n.whole ∧ fitsWord n.toInt then integer n.toInt else ofReal n.toColumnDouble

def convert : Column.Affinity → Cell → Cell
  | .integer, real x => ofReal x
  | .integer, text s => ofNumeral s
  | .text, integer n => text (toString n)
  | .text, real x => text (DoubleLayout.column.text x)
  | _, cell => cell

def isInt : Cell → Int → Bool
  | integer m, n => m == n
  | real x, n => x.isInt n
  | _, _ => false

/-- Null first, then numbers by their value, then text by its characters. -/
def lt : Cell → Cell → Bool
  | null, null => false
  | null, _ => true
  | _, null => false
  | integer m, integer n => m < n
  | integer m, real y => (Double.finite ⟨decide (m < 0), m.natAbs, 0⟩).lt y
  | real x, integer n => x.lt (Double.finite ⟨decide (n < 0), n.natAbs, 0⟩)
  | real x, real y => x.lt y
  | text s, text u => s < u
  | text _, _ => false
  | _, text _ => true

end Cell

end MediaIndex.Catalog
