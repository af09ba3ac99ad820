import MediaIndex.Catalog.Table

/-!
# Batches

A batch applies operations from the left to the right, each to what the ones before it made of the
table. The first one that fails spoils the whole batch.
-/

namespace MediaIndex.Catalog

open Media (Value)

/-- A change of the catalog; `unknown` stands for anything that is none. -/
inductive Operation where
  | upsert (record : Record)
  | delete (id : Int)
  | unknown (v : Value)

inductive Refusal where
  | fault (f : StoreFault)
  | tooWide
  | noOperation (v : Value)

def Refusal.shown (v : Value) : String :=
  match v.inner with
  | .ok text => text
  | .error e => e.message

def Refusal.failure (size : Nat) : Refusal → Failure
  | fault f => .batch size f
  | tooWide => .tooWide
  | noOperation v => .noOperation (shown v)

namespace Record

def firstUnbound? (r : Record) : Option Refusal :=
  Column.all.zipIdx.findSome? fun (c, position) =>
    match Cell.bind (r c) with
    | .ok _ => none
    | .error .tooWide => some .tooWide
    | .error (.kind name) => some (.fault (.unboundKind (position + 1) name))

def cells (r : Record) : Column → Cell :=
  fun c => match Cell.bind (r c) with
    | .ok cell => cell.convert c.affinity
    | .error _ => .null

end Record

def Operation.unfit? : Operation → Option Refusal
  | upsert record => record.firstUnbound?
  | delete id => if fitsWord id then none else some .tooWide
  | unknown v => some (.noOperation v)

def firstMissing? (cells : Column → Cell) : Option Column :=
  Column.required.find? fun c => cells c == .null

namespace Table

/-- Applies one operation. `barrier` is a fault that any write meets once its values are given. -/
def applyOne (t : Table) (barrier : Option StoreFault) (now : String) :
    Operation → Except Refusal (Table × Option Int)
  | .upsert record =>
    match record.firstUnbound?, barrier, firstMissing? record.cells with
    | some refusal, _, _ => .error refusal
    | none, some fault, _ => .error (.fault fault)
    | none, none, some column => .error (.fault (.missingValue column))
    | none, none, none =>
      let written := t.write record.cells now
      .ok (written.1, some written.2)
  | .delete id =>
    if !fitsWord id then .error .tooWide
    else match barrier with
      | some fault => .error (.fault fault)
      | none => .ok (t.delete id, none)
  | .unknown v => .error (.noOperation v)

def tried (t : Table) (barrier : Option StoreFault) (now : String) :
    List Operation → List Operation
  | [] => []
  | op :: ops => match t.applyOne barrier now op with
    | .error _ => [op]
    | .ok (t, _) => op :: tried t barrier now ops

/-- Applies operations one after the other: the table in the end, and for each operation the number
of the row it wrote. -/
def applyAll (t : Table) (barrier : Option StoreFault) (now : String) :
    List Operation → Except Refusal (Table × List (Option Int))
  | [] => .ok (t, [])
  | op :: ops =>
    match t.applyOne barrier now op with
    | .error refusal => .error refusal
    | .ok (t, id) =>
      match applyAll t barrier now ops with
      | .error refusal => .error refusal
      | .ok (t, ids) => .ok (t, id :: ids)

end Table

end MediaIndex.Catalog
