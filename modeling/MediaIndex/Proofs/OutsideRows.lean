import Mathlib.Tactic.FinCases
import MediaIndex.Proofs.Exactness
import MediaIndex.Proofs.PathReading

/-!
# Rows outside of the root

A pass writes at paths that it visits and deletes rows at or below its root, so a row that lies
elsewhere stays as it is, and none comes to lie there. This holds of every pass, whatever becomes of
its batches and however it ends. It also holds at every point at which a pass can be cut off: what
it has made of the catalog up to there is what it would make of it if all batches from there on
failed.
-/

namespace MediaIndex.Catalog

/-- The row is of the root or of a path below it. -/
def Row.LiesIn (r : Row) (root : Path) : Prop :=
  ∃ text, r.cells .path = .text text ∧ root.Encloses text

theorem Row.liesIn_of_isOf {r : Row} {root : Path} {volume : String} (hRoot : root.IsAbsolute)
    (h : Table.IsOf volume root r) : r.LiesIn root := by
  obtain ⟨-, text, hText, hCovers⟩ := h
  exact ⟨text, hText, hRoot.encloses_of_covers hCovers⟩

/-- The tables have the same rows outside of the root. -/
def Table.AgreesOutside (before : Table) (root : Path) (after : Table) : Prop :=
  ∀ r : Row, ¬ r.LiesIn root → (r ∈ after.rows ↔ r ∈ before.rows)

/-! ## Stores whose batches fail from some point on -/

namespace Store

def failing (s : Store) (positions : List Nat) : Store := { s with failingBatches := positions }

theorem countDown_map_succ (positions : List Nat) :
    countDown (positions.map (· + 1)) = positions := by
  induction positions with
  | nil => rfl
  | cons n rest ih => simpa [countDown] using ih

theorem countDown_zero_cons (positions : List Nat) :
    countDown (0 :: positions) = countDown positions := rfl

theorem submit_failing_first (s : Store) (ops : List Operation) :
    ∃ (reply : Except Failure (List (Option Int))) (later : Store), later.contents = s.contents ∧
      ∀ positions, (s.failing (0 :: positions.map (· + 1))).submit ops =
        (reply, later.failing positions) := by
  refine ⟨.error ((Refusal.fault .diskFull).failure ops.length),
    { s with clock := s.clock + 1 }, rfl, fun positions => ?_⟩
  simp [submit, batch, memoryAfter, failing, countDown_zero_cons, countDown_map_succ]

theorem submit_failing_later (s : Store) (ops : List Operation) (positions : List Nat) :
    ∃ earlier, (s.failing earlier).submit ops =
      ((s.submit ops).1, (s.submit ops).2.failing positions) := by
  obtain ⟨earlier, hFirst, hRest⟩ : ∃ earlier, (0 ∈ earlier ↔ 0 ∈ s.failingBatches) ∧
      countDown earlier = positions := by
    by_cases hFails : 0 ∈ s.failingBatches
    · exact ⟨0 :: positions.map (· + 1), by simp [hFails], by
        rw [countDown_zero_cons, countDown_map_succ]⟩
    · exact ⟨positions.map (· + 1), by simp [hFails], countDown_map_succ positions⟩
  refine ⟨earlier, ?_⟩
  have hBatch : (s.failing earlier).batch ops = s.batch ops := by
    simp only [batch, failing, hFirst]
    rfl
  have hMemory : (s.failing earlier).memoryAfter ops = s.memoryAfter ops := by
    simp only [memoryAfter, failing, hFirst]
    rfl
  rw [submit, submit, hBatch, hMemory]
  cases s.batch ops <;> simp [failing, hRest]

end Store

end MediaIndex.Catalog

namespace MediaIndex.Reconcile

open Catalog (Cell Row Store Table)
open Disk (Tree)

/-! ## Dialogues that are cut off -/

namespace Dialogue

variable {α : Type}

/-- What is left of a dialogue after some calls. -/
def steps : Nat → Dialogue α → Store → Run (Dialogue α)
  | 0, d, s => ⟨d, [], s⟩
  | n + 1, d, s =>
    let first := d.step s
    let rest := steps n first.result first.store
    { rest with notes := first.notes ++ rest.notes }

theorem store_steps_finish (a : α) (n : Nat) (s : Store) :
    ((finish a).steps n s).store = s := by
  induction n with
  | zero => rfl
  | succ n ih => exact ih

/-- What a dialogue has made of the catalog when it is cut off, it makes of it if all batches from
there on fail. -/
theorem exists_failing (d : Dialogue α) (n : Nat) (s : Store) :
    ∃ positions, (d.run (s.failing positions)).store.contents = (d.steps n s).store.contents := by
  induction d generalizing n s with
  | finish a => exact ⟨[], by rw [store_steps_finish]; rfl⟩
  | tell note next ih =>
    cases n with
    | zero => exact ih 0 s
    | succ n => exact ih (n + 1) s
  | lookup volume path next ih =>
    cases n with
    | zero => exact ih (s.lookup volume path).1 0 (s.lookup volume path).2
    | succ n => exact ih (s.lookup volume path).1 n (s.lookup volume path).2
  | idsUnder volume root next ih =>
    cases n with
    | zero => exact ih (s.idsUnder volume root).1 0 (s.idsUnder volume root).2
    | succ n => exact ih (s.idsUnder volume root).1 n (s.idsUnder volume root).2
  | submit ops next ih =>
    cases n with
    | zero =>
      -- The next batch fails, and with it all that follow.
      obtain ⟨reply, later, hContents, hSubmit⟩ := s.submit_failing_first ops
      obtain ⟨positions, hRest⟩ := ih reply 0 later
      refine ⟨0 :: positions.map (· + 1), ?_⟩
      rw [run, hSubmit]
      exact hRest.trans hContents
    | succ n =>
      obtain ⟨positions, hRest⟩ := ih (s.submit ops).1 n (s.submit ops).2
      obtain ⟨earlier, hSubmit⟩ := s.submit_failing_later ops positions
      refine ⟨earlier, ?_⟩
      rw [run, hSubmit]
      exact hRest

end Dialogue

/-! ## Passes -/

variable {t : Tree} {p : Pass} {before middle after : Table} {walk sweep : List Call}

theorem Ran.agreesOutside (h : Ran t p before middle after walk sweep) (hTree : t.WellFormed)
    (hBefore : before.Sound) (hRoot : p.root.IsAbsolute) : before.AgreesOutside p.root after := by
  intro r hOutside
  have hUnvisited : ¬ ∃ a ∈ p.visited t, r.cells .path = .text a.path.text ∧
      Confirmed t p.volume before walk a := by
    rintro ⟨a, ha, hText, -⟩
    have hCovers := Walk.covers_of_mem_visits hTree hRoot (Pass.mem_visits_of_mem_visited ha)
    exact hOutside ⟨_, hText, hRoot.encloses_of_covers hCovers⟩
  constructor
  · intro hr
    obtain ⟨hMiddle, -⟩ := h.rowOf?_after_iff.mp (h.erases.sound.rowOf?_of_mem hr)
    exact h.mem_before_of_unconfirmed (Table.mem_of_rowOf?_eq_some hMiddle).1 hUnvisited
  · intro hr
    have hMiddle := h.mem_middle_of_unconfirmed hBefore hr hUnvisited
    have hKept : r.id ∉ erased sweep := by
      intro hErased
      obtain ⟨other, hOther, hDelete, hIsOf, -⟩ :=
        h.deletes _ ((applied_sublist sweep).subset (mem_erased_iff.mp hErased))
      obtain rfl := h.writes.sound.eq_of_id_eq hMiddle hOther (Catalog.Operation.delete.inj hDelete)
      exact hOutside (Row.liesIn_of_isOf hRoot hIsOf)
    exact (Table.mem_of_rowOf?_eq_some
      (h.rowOf?_after_iff.mpr ⟨h.writes.sound.rowOf?_of_mem hMiddle, hKept⟩)).1

section

variable {path : Path} {told : Bool} {size : Int} {s : Store}

theorem agreesOutside_of_run (hTree : t.WellFormed) (hPath : path.IsProper)
    (hBefore : before.Sound) (hStart : Pass.start t path told size = .ok p)
    (hs : s.contents = .table before) : ∃ after, ((p.run t).run s).store.contents = .table after ∧
      before.AgreesOutside p.root after := by
  obtain ⟨after, middle, walk, sweep, -, hAfter, -, hRan, -⟩ :=
    ran_of_run hTree hPath hBefore hStart hs
  have hRoot : p.root.IsAbsolute := (Pass.start_eq_ok hStart).2 ▸ hPath.absolute
  exact ⟨after, hAfter, hRan.agreesOutside hTree hBefore hRoot⟩

/-- However a pass ends, and wherever it is cut off, the catalog has the same rows outside of its
root as before, with the same number, date and cells. -/
theorem outside_untouched (hTree : t.WellFormed) (hPath : path.IsProper) (hBefore : before.Sound)
    (hStart : Pass.start t path told size = .ok p) (hs : s.contents = .table before) :
    (∃ after, ((p.run t).run s).store.contents = .table after ∧
      before.AgreesOutside p.root after) ∧
    ∀ n, ∃ now, ((p.run t).steps n s).store.contents = .table now ∧
      before.AgreesOutside p.root now := by
  refine ⟨agreesOutside_of_run hTree hPath hBefore hStart hs, fun n => ?_⟩
  obtain ⟨positions, hSame⟩ := (p.run t).exists_failing n s
  rw [← hSame]
  exact agreesOutside_of_run hTree hPath hBefore hStart hs

end

/-- A row of the directory above, one that is due to go, and two of directories whose texts are like
that of the root. -/
def neighbourTable : Table where
  rows := [outdatedRow 1 "/", outdatedRow 2 "/m/gone.m3u", outdatedRow 3 "/m2/a.m3u",
    outdatedRow 5 "/M/a.m3u"]
  counter := 6

theorem outside_untouched_neighbours :
    ∃ after, ((playlistPass.run playlistTree).run (.ofTable neighbourTable 0)).store.contents =
        .table after ∧
      ∀ row ∈ [outdatedRow 1 "/", outdatedRow 3 "/m2/a.m3u", outdatedRow 5 "/M/a.m3u"],
        row ∈ after.rows := by
  have hBefore : neighbourTable.Sound := ⟨by decide, by decide, by decide⟩
  obtain ⟨⟨after, hAfter, hSame⟩, -⟩ := outside_untouched playlistTree_wellFormed playlist_isProper
    hBefore playlist_start (rfl : (Store.ofTable neighbourTable 0).contents = _)
  refine ⟨after, hAfter, fun row hRow => (hSame row ?_).mpr ?_⟩
  · rintro ⟨text, hText, hNames, -⟩
    fin_cases hRow <;> cases hText <;> revert hNames <;> decide
  · fin_cases hRow <;> simp [neighbourTable]

end MediaIndex.Reconcile
