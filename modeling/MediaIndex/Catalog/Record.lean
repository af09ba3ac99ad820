import MediaIndex.Catalog.Column
import MediaIndex.Media.Value
import MediaIndex.Path.Basic

/-!
# Records

A record gives every column a value; what was not found is null. Writing a record therefore replaces
all that an earlier scan stored for the path.
-/

namespace MediaIndex.Catalog

open Media (Value)

def Record : Type := Column → Value

namespace Record

instance : Inhabited Record := ⟨fun _ => .null⟩

def put (r : Record) (c : Column) (v : Value) : Record :=
  fun d => if d = c then v else r d

def putAll (r : Record) (values : List (Column × Value)) : Record :=
  values.foldl (fun r entry => r.put entry.1 entry.2) r

@[simp] theorem put_same (r : Record) (c : Column) (v : Value) : r.put c v c = v := by
  simp [put]

theorem put_of_ne (r : Record) {c d : Column} (v : Value) (h : d ≠ c) : r.put c v d = r d := by
  simp [put, h]

/-- All null but the two columns that have a default. -/
def empty : Record :=
  fun
  | .mediaType | .isDrm => .int 0
  | _ => .null

def basic (path volume : String) (size modified : Int) (title : String) : Record :=
  empty.putAll [(.path, .text path), (.volumeName, .text volume), (.size, .int size),
    (.dateModified, .int modified), (.title, .text title)]

end Record

end MediaIndex.Catalog
