import MediaIndex.Proofs.BatchRows
import MediaIndex.Proofs.PassSteps
import Mathlib.Data.Finset.Lattice.Lemmas

/-!
# The course of a pass that lets nothing wait

What a pass comes to is easiest told of one that has no queue: each operation is done to the table
at the moment it is found due, and the number it tells counts as scanned from then on. Dates are
left out of the table, since they tell when a batch was submitted.
-/

namespace MediaIndex.Catalog

def Row.undated (r : Row) : Row := { r with added := "" }

namespace Table

/-- The table but for the dates of its rows. -/
def undated (t : Table) : Table := { t with rows := t.rows.map Row.undated }

variable {t : Table}

theorem rowOf?_undated (c : Cell) : t.undated.rowOf? c = (t.rowOf? c).map Row.undated :=
  List.find?_map

theorem lookup_undated (volume : String) (path : Path) :
    t.undated.lookup volume path = t.lookup volume path := by
  simp only [lookup, undated, List.find?_map, Option.map_map]
  rfl

theorem idsUnder_undated (volume : String) (root : Path) :
    t.undated.idsUnder volume root = t.idsUnder volume root := by
  simp only [idsUnder, undated, List.filter_map, List.map_map]
  rfl

theorem write_undated (cells : Column → Cell) (now : String) :
    t.undated.write cells "" = ((t.write cells now).1.undated, (t.write cells now).2) := by
  cases hOld : t.rowOf? (cells .path) with
  | none =>
    have hUndated : t.undated.rowOf? (cells .path) = none := by
      rw [rowOf?_undated, hOld]
      rfl
    rw [write_eq_of_none hOld, write_eq_of_none hUndated]
    simp [undated, Row.undated]
  | some old =>
    have hRows : (t.rows.map Row.undated).map
        (fun r => if r.id = old.undated.id then { r with cells } else r) =
          (t.rows.map fun r => if r.id = old.id then { r with cells } else r).map Row.undated := by
      rw [List.map_map, List.map_map]
      refine List.map_congr_left fun r _ => ?_
      exact (apply_ite Row.undated (r.id = old.id) { r with cells } r).symm
    have hUndated : t.undated.rowOf? (cells .path) = some old.undated := by
      rw [rowOf?_undated, hOld]
      rfl
    rw [write_eq_of_some hOld, write_eq_of_some hUndated]
    exact congrArg (fun rows => (Table.mk rows (t.counter + 1), old.id)) hRows

theorem delete_undated (id : Int) : t.undated.delete id = (t.delete id).undated := by
  simp only [delete, undated, List.filter_map]
  rfl

theorem Sound.undated (h : t.Sound) : t.undated.Sound where
  increasing := by
    rw [Table.undated, List.map_map]
    exact h.increasing
  counted r hr := by
    obtain ⟨s, hs, rfl⟩ := List.mem_map.mp hr
    exact h.counted s hs
  distinct := by
    rw [Table.undated, List.map_map]
    exact h.distinct

end Table

end MediaIndex.Catalog

namespace MediaIndex.Reconcile

open Catalog (Cell Operation Record Store StoreFault Table)
open Disk (Attributes Fault Tree)
open Walk (Event)

/-- How far a pass has come that has no queue, with the table it works on. -/
structure Course where
  root : Path
  volume : String
  told : Bool
  phase : Phase
  table : Table
  scanned : Finset Int
  first : Option Int
  tally : Tally

namespace Course

structure Progress where
  course : Course
  failure : Option Failure

def Progress.andThen (progress : Progress) (next : Course → Progress) : Progress :=
  match progress.failure with
  | none => next progress.course
  | some _ => progress

def count (c : Course) (f : Tally → Tally) : Course := { c with tally := f c.tally }

def confirm (c : Course) (id : Int) : Course := { c with scanned := insert id c.scanned }

def perform (c : Course) : Operation → Course
  | .upsert record =>
    let written := c.table.write record.cells ""
    { c with
      table := written.1
      scanned := insert written.2 c.scanned
      first := c.first.or (some written.2) }
  | .delete id => { c with table := c.table.delete id }
  | .unknown _ => c

def countVisited (tally : Tally) : Tally := { tally with visited := tally.visited + 1 }

def countUnchanged (tally : Tally) : Tally := { tally with unchanged := tally.unchanged + 1 }

def countFailed (tally : Tally) : Tally := { tally with failed := tally.failed + 1 }

section

variable (t : Tree) (faults : Nat → Option StoreFault)

/-- Each visit asks the catalog once, so the number of visits so far is the position of the next
query. -/
def visit (c : Course) (a : Attributes) : Progress :=
  match faults c.tally.visited with
  | some fault => ⟨c.count countVisited, some (.walk c.root (.lookup a.path fault))⟩
  | none => match standing t c.volume c.table a with
    | .kept entry => ⟨((c.count countVisited).confirm entry.id).count countUnchanged, none⟩
    | .taken record =>
      ⟨((c.count countVisited).perform (.upsert record)).count Pass.countQueued, none⟩
    | .passed => match Media.takeIn t c.told a c.volume with
      | .error fault => ⟨c.count countVisited, some (.disk fault)⟩
      | .ok _ => ⟨c.count countVisited, none⟩

def observe (c : Course) : Event → Progress
  | .visit a => c.visit t faults a
  | .hidden _ => ⟨c, none⟩
  | .failed _ .interrupted => ⟨c, some (.disk .interrupted)⟩
  | .failed _ (.failed _ _) => ⟨c.count countFailed, none⟩
  | .leave _ => ⟨c, none⟩

def observeAll : List Event → Course → Progress
  | [], c => ⟨c, none⟩
  | event :: events, c => (c.observe t faults event).andThen (observeAll events)

def explore (c : Course) : Progress :=
  observeAll t faults (Walk.walk t c.root) { c with phase := .walking }

/-- A row goes at once unless it counts as scanned. -/
def clean (c : Course) (id : Int) : Course :=
  if id ∈ c.scanned then c else (c.perform (.delete id)).count Pass.countDeleted

def sweep (c : Course) : Progress :=
  match faults c.tally.visited with
  | some fault => ⟨c, some (.cleanup c.root (.range c.root fault))⟩
  | none => ⟨(c.table.idsUnder c.volume c.root).foldl clean c, none⟩

def finish (c : Course) : Progress := sweep faults { c with phase := .sweeping }

/-- The course of a whole pass, whose start lies in a hidden location or not. -/
def run (c : Course) : Except Fault Bool → Progress
  | .error fault => ⟨c, some (.disk fault)⟩
  | .ok true => c.finish faults
  | .ok false => (c.explore t faults).andThen (finish faults)

end

/-! ## Operations and what they leave alone -/

variable {c : Course}

theorem perform_count (f : Tally → Tally) (op : Operation) :
    (c.count f).perform op = (c.perform op).count f := by
  cases op <;> rfl

theorem perform_confirm (id : Int) (op : Operation) :
    (c.confirm id).perform op = (c.perform op).confirm id := by
  cases op with
  | upsert record =>
    simp only [perform, confirm]
    rw [Finset.insert_comm]
  | delete other => rfl
  | unknown v => rfl

theorem foldl_perform_count (f : Tally → Tally) (ops : List Operation) :
    ops.foldl perform (c.count f) = (ops.foldl perform c).count f :=
  List.foldl_hom (count · f) fun _ op => perform_count f op

theorem foldl_perform_confirm (id : Int) (ops : List Operation) :
    ops.foldl perform (c.confirm id) = (ops.foldl perform c).confirm id :=
  List.foldl_hom (confirm · id) fun _ op => perform_confirm id op

theorem foldl_perform_eq (c : Course) (ops : List Operation) : ∃ table scanned first,
    ops.foldl perform c = { c with table, scanned, first } := by
  induction ops generalizing c with
  | nil => exact ⟨c.table, c.scanned, c.first, rfl⟩
  | cons op ops ih =>
    obtain ⟨table, scanned, first, hRest⟩ := ih (c.perform op)
    refine ⟨table, scanned, first, hRest.trans ?_⟩
    cases op <;> rfl

theorem sound_perform (h : c.table.Sound) (op : Operation) : (c.perform op).table.Sound := by
  cases op with
  | upsert record => exact h.write record.cells ""
  | delete id => exact h.delete id
  | unknown v => exact h

theorem sound_foldl_perform (h : c.table.Sound) (ops : List Operation) :
    (ops.foldl perform c).table.Sound := by
  induction ops generalizing c with
  | nil => exact h
  | cons op ops ih => exact ih (sound_perform h op)

/-- Records of other paths leave the row of a path. -/
theorem rowOf?_foldl_perform (h : c.table.Sound) {ops : List Operation} {cell : Cell}
    (hOther : ∀ op ∈ ops, ∃ record, op = .upsert record ∧ Table.pathOf record ≠ cell) :
    (ops.foldl perform c).table.rowOf? cell = c.table.rowOf? cell := by
  induction ops generalizing c with
  | nil => rfl
  | cons op ops ih =>
    obtain ⟨record, rfl, hPath⟩ := hOther op List.mem_cons_self
    rw [List.foldl_cons,
      ih (sound_perform h _) fun op hOp => hOther op (List.mem_cons_of_mem _ hOp)]
    exact h.rowOf?_write_of_ne record.cells "" hPath.symm

/-- Deletions tell no numbers. -/
theorem scanned_foldl_perform {ops : List Operation}
    (hDeletes : ∀ op ∈ ops, ∃ id, op = .delete id) : (ops.foldl perform c).scanned = c.scanned := by
  induction ops generalizing c with
  | nil => rfl
  | cons op ops ih =>
    obtain ⟨id, rfl⟩ := hDeletes op List.mem_cons_self
    exact ih fun op hOp => hDeletes op (List.mem_cons_of_mem _ hOp)

/-- A batch that is applied does what its operations do one by one, but for the dates. -/
theorem foldl_perform_of_applyAll {now after : Table} {barrier : Option StoreFault} {clock : String}
    {ops : List Operation} {ids : List (Option Int)} (hTable : c.table = now.undated)
    (h : now.applyAll barrier clock ops = .ok (after, ids)) :
    ops.foldl perform c = { c with
      table := after.undated
      scanned := c.scanned ∪ (ids.filterMap id).toFinset
      first := c.first.or (ids.filterMap id).head? } := by
  induction ops generalizing c now ids with
  | nil =>
    obtain ⟨rfl, rfl⟩ := Prod.mk.inj (Except.ok.inj h)
    simp [← hTable]
  | cons op ops ih =>
    obtain ⟨between, result, rest, hOne, hRest, rfl⟩ := Table.applyAll_cons_eq_ok h
    cases op with
    | upsert record =>
      obtain ⟨-, -, -, rfl, rfl⟩ := Table.applyOne_upsert_eq_ok_iff.mp hOne
      have hWritten : c.table.write record.cells "" =
          ((now.write record.cells clock).1.undated, (now.rowFor record.cells clock).id) := by
        rw [hTable, Table.write_undated, Table.snd_write]
      have hFirst : (c.perform (.upsert record)).table = (now.write record.cells clock).1.undated :=
        congrArg Prod.fst hWritten
      rw [List.foldl_cons, ih hFirst hRest]
      simp only [perform, hWritten, List.filterMap_cons, id, List.toFinset_cons, List.head?_cons,
        Finset.insert_union, Finset.union_insert, Option.or_assoc, Option.some_or]
    | delete id =>
      obtain ⟨-, -, rfl, rfl⟩ := Table.applyOne_delete_eq_ok_iff.mp hOne
      have hDeleted : c.table.delete id = (now.delete id).undated := by
        rw [hTable, Table.delete_undated]
      exact (ih hDeleted hRest).trans rfl
    | unknown v => cases hOne

/-! ## The walk -/

section

variable (t : Tree) (faults : Nat → Option StoreFault)

theorem phase_visit (c : Course) (a : Attributes) :
    (c.visit t faults a).course.phase = c.phase := by
  unfold visit
  split
  · rfl
  · split
    · rfl
    · rfl
    · split <;> rfl

theorem phase_observe (c : Course) (event : Event) :
    (c.observe t faults event).course.phase = c.phase := by
  cases event with
  | visit a => exact phase_visit t faults c a
  | failed path fault => cases fault <;> rfl
  | _ => rfl

theorem phase_observeAll (events : List Event) (c : Course) :
    (observeAll t faults events c).course.phase = c.phase := by
  induction events generalizing c with
  | nil => rfl
  | cons event events ih =>
    rw [observeAll, Progress.andThen]
    split
    · rw [ih, phase_observe]
    · exact phase_observe t faults c event

/-! ## The sweep -/

theorem phase_foldl_clean (ids : List Int) (c : Course) : (ids.foldl clean c).phase = c.phase := by
  induction ids generalizing c with
  | nil => rfl
  | cons id ids ih =>
    rw [List.foldl_cons, ih, clean]
    split <;> rfl

theorem phase_finish (c : Course) : (c.finish faults).course.phase = .sweeping := by
  rw [finish, sweep]
  split
  · rfl
  · exact phase_foldl_clean _ _

theorem phase_run_of_none {c : Course} {isHidden : Except Fault Bool}
    (h : (c.run t faults isHidden).failure = none) :
    (c.run t faults isHidden).course.phase = .sweeping := by
  unfold run at h ⊢
  split at h
  · cases h
  · exact phase_finish faults c
  · unfold Progress.andThen at h ⊢
    split at h
    · exact phase_finish faults _
    · next hStopped => rw [hStopped] at h; cases h

end

end Course

end MediaIndex.Reconcile
