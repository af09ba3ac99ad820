import MediaIndex.Proofs.BatchEffects

/-!
# The identity of records

However a catalog is filled and emptied by batches, a number names one path and one date of addition
for as long as its row stays, and it names no other row when that is gone: the rows of a later table
whose numbers the earlier one had counted are rows of the earlier one. Batches that fail count for
nothing.
-/

namespace MediaIndex.Catalog

namespace Table

variable {t before between after : Table}

/-- Rows with numbers that had been counted are rows that were there, at the same path. -/
structure Descends (before after : Table) : Prop where
  counter : before.counter ≤ after.counter
  rows : ∀ r ∈ after.rows, r.id ≤ before.counter → ∃ old ∈ before.rows,
    old.id = r.id ∧ old.cells .path = r.cells .path ∧ old.added = r.added

theorem Descends.refl (t : Table) : t.Descends t where
  counter := Int.le_refl t.counter
  rows r hr _ := ⟨r, hr, rfl, rfl, rfl⟩

theorem Descends.trans (h : before.Descends between) (h' : between.Descends after) :
    before.Descends after where
  counter := Int.le_trans h.counter h'.counter
  rows r hr hId := by
    obtain ⟨middle, hMiddle, hSameId, hPath, hAdded⟩ :=
      h'.rows r hr (Int.le_trans hId h.counter)
    obtain ⟨old, hOld, hOldId, hOldPath, hOldAdded⟩ := h.rows middle hMiddle (hSameId ▸ hId)
    exact ⟨old, hOld, hOldId.trans hSameId, hOldPath.trans hPath, hOldAdded.trans hAdded⟩

section

variable {now : String} {op : Operation} {ops : List Operation} {result : Option Int}
  {results : List (Option Int)}

theorem Writes.descends {records : List Record} (h : before.Writes records after) :
    before.Descends after where
  counter := h.counter_le
  rows _ hr hId := (h.new_or_old hr).resolve_left (Int.not_lt.mpr hId)

theorem Effect.descends (h : Effect now before after op result) : before.Descends after := by
  cases hOp : op with
  | upsert record => exact (hOp ▸ h).writes.descends
  | delete id =>
    subst hOp
    cases h with
    | deleted hSound hRows hCounter =>
      refine ⟨by omega, fun r hr _ => ?_⟩
      have hSame := hSound.rowOf?_of_mem hr
      rw [hRows, Option.filter_eq_some_iff] at hSame
      exact ⟨r, (mem_of_rowOf?_eq_some hSame.1).1, rfl, rfl, rfl⟩
  | unknown v => cases hOp ▸ h

theorem Effects.descends (h : Effects now before ops results after) : before.Descends after := by
  induction h with
  | nil => exact .refl _
  | cons hFirst hRest ih => exact hFirst.descends.trans ih

end

/-- A number that is gone from a table which descends from one that has counted it is gone for
good. -/
theorem Descends.notMem (h : before.Descends after) {id : Int} (hCounted : id ≤ before.counter)
    (hGone : ∀ r ∈ before.rows, r.id ≠ id) : ∀ r ∈ after.rows, r.id ≠ id := by
  intro r hr hId
  obtain ⟨old, hOld, hOldId, -⟩ := h.rows r hr (hId ▸ hCounted)
  exact hGone old hOld (hOldId.trans hId)

end Table

/-! ## Histories of batches -/

theorem Store.descends_submit {s : Store} {before : Table} (hs : s.contents = .table before)
    (hBefore : before.Sound) (ops : List Operation) :
    ∃ after, (s.submit ops).2.contents = .table after ∧ after.Sound ∧ before.Descends after := by
  rcases Reconcile.submit_cases hs ops with
    ⟨ids, after, barrier, clock, -, hAll, hAfter⟩ | ⟨failure, -, hAfter⟩
  · have hEffects := hBefore.effects_applyAll hAll
    exact ⟨after, hAfter, hEffects.sound hBefore, hEffects.descends⟩
  · exact ⟨before, hAfter, hBefore, .refl before⟩

def Contents.rows : Contents → List Row
  | .table t => t.rows
  | _ => []

/-- What a catalog that was empty has after each of a sequence of batches. A batch may be submitted
over any store that has what the one before it left, so that any of them may fail. -/
structure History (contents : Nat → Contents) : Prop where
  start : contents 0 = .table .empty
  next : ∀ n, ∃ s ops, s.contents = contents n ∧ (Store.submit s ops).2.contents = contents (n + 1)

namespace History

variable {contents : Nat → Contents} (h : History contents)

include h

theorem table (n : Nat) : ∃ t, contents n = .table t ∧ t.Sound := by
  induction n with
  | zero => exact ⟨.empty, h.start, Table.sound_empty⟩
  | succ n ih =>
    obtain ⟨t, hTable, hSound⟩ := ih
    obtain ⟨s, ops, hs, hNext⟩ := h.next n
    obtain ⟨after, hAfter, hLater, -⟩ := s.descends_submit (hs.trans hTable) hSound ops
    exact ⟨after, hNext.symm.trans hAfter, hLater⟩

theorem descends {m n : Nat} (hLe : m ≤ n) {before : Table} (hBefore : contents m = .table before) :
    ∃ after, contents n = .table after ∧ before.Descends after := by
  induction hLe with
  | refl => exact ⟨before, hBefore, .refl before⟩
  | @step n hLe ih =>
    obtain ⟨between, hBetween, hDescends⟩ := ih
    obtain ⟨t, hTable, hSound⟩ := h.table n
    obtain rfl := Contents.table.inj (hBetween.symm.trans hTable)
    obtain ⟨s, ops, hs, hNext⟩ := h.next n
    obtain ⟨after, hAfter, -, hMore⟩ := s.descends_submit (hs.trans hTable) hSound ops
    exact ⟨after, hNext.symm.trans hAfter, hDescends.trans hMore⟩

end History

/-- After every batch no two rows have one path or one number. A number that is there at two times
names the same path, added at the same date, and a number that was there and is gone is not given
again. -/
theorem identity_kept {contents : Nat → Contents} (h : History contents) :
    (∀ n, ∃ t, contents n = .table t ∧ (t.rows.map (·.cells .path)).Nodup ∧
      (t.rows.map (·.id)).Nodup) ∧
    (∀ m n, m ≤ n → ∀ old ∈ (contents m).rows, ∀ r ∈ (contents n).rows, r.id = old.id →
      r.cells .path = old.cells .path ∧ r.added = old.added) ∧
    ∀ k m n, k ≤ m → m ≤ n → ∀ old ∈ (contents k).rows,
      (∀ r ∈ (contents m).rows, r.id ≠ old.id) → ∀ r ∈ (contents n).rows, r.id ≠ old.id := by
  refine ⟨?_, ?_, ?_⟩
  · intro n
    obtain ⟨t, hTable, hSound⟩ := h.table n
    exact ⟨t, hTable, hSound.distinct, hSound.increasing.imp Int.ne_of_lt⟩
  · intro m n hLe old hOld r hr hId
    obtain ⟨before, hBefore, hSound⟩ := h.table m
    obtain ⟨after, hAfter, hDescends⟩ := h.descends hLe hBefore
    rw [hBefore] at hOld
    rw [hAfter] at hr
    obtain ⟨found, hFound, hFoundId, hPath, hAdded⟩ :=
      hDescends.rows r hr (hId ▸ hSound.counted old hOld)
    obtain rfl := hSound.eq_of_id_eq hFound hOld (hFoundId.trans hId)
    exact ⟨hPath.symm, hAdded.symm⟩
  · intro k m n hFirst hSecond old hOld hGone
    obtain ⟨before, hBefore, hSound⟩ := h.table k
    obtain ⟨between, hBetween, hDescends⟩ := h.descends hFirst hBefore
    obtain ⟨after, hAfter, hLater⟩ := h.descends hSecond hBetween
    rw [hBefore] at hOld
    rw [hBetween] at hGone
    rw [hAfter]
    exact hLater.notMem (Int.le_trans (hSound.counted old hOld) hDescends.counter) hGone

/-! ## A path that is deleted and added again -/

/-- The store after each of a sequence of batches. -/
def Store.after (s : Store) (batches : Nat → List Operation) : Nat → Store
  | 0 => s
  | n + 1 => ((s.after batches n).submit (batches n)).2

theorem Store.history_after {s : Store} (hs : s.contents = .table .empty)
    (batches : Nat → List Operation) : History fun n => (s.after batches n).contents :=
  ⟨hs, fun n => ⟨s.after batches n, batches n, rfl, rfl⟩⟩

/-- A path is added, deleted, and added again; a batch for another path in between fails. -/
def renewal : Nat → List Operation
  | 0 => [.upsert (listRecord "/m/a.m3u" 3)]
  | 1 => [.delete 1]
  | 2 => [.upsert (listRecord "/m/b.m3u" 3)]
  | 3 => [.upsert (listRecord "/m/a.m3u" 3)]
  | _ => []

def faultyStore : Store := { Store.ofTable .empty 0 with failingBatches := [2] }

theorem identity_kept_renewal :
    let contents := fun n => (faultyStore.after renewal n).contents
    ((contents 1).rows.map (·.id) = [1] ∧ (contents 4).rows.map (·.id) = [2]) ∧
      ∀ n, 2 ≤ n → ∀ r ∈ (contents n).rows, r.id ≠ 1 := by
  intro contents
  have hHistory : History contents := Store.history_after rfl renewal
  have hFirst : (contents 1).rows.map (·.id) = [1] := by decide +kernel
  obtain ⟨old, hOld, hId⟩ : ∃ old ∈ (contents 1).rows, old.id = 1 := by
    rw [← List.mem_map, hFirst]
    exact List.mem_singleton_self 1
  refine ⟨⟨hFirst, by decide +kernel⟩, fun n hLe => ?_⟩
  have hGone : ∀ r ∈ (contents 2).rows, r.id ≠ old.id := by
    rw [hId]
    decide +kernel
  rw [← hId]
  exact (identity_kept hHistory).2.2 1 2 n (by decide) hLe old hOld hGone

end MediaIndex.Catalog
