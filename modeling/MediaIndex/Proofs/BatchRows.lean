import MediaIndex.Proofs.TableRows

/-!
# What batches make of a table

A batch that writes records of different paths settles those paths and no others, and it tells the
numbers of the rows that now stand there. A batch that deletes numbers takes exactly their rows.
-/

namespace MediaIndex.Catalog.Table

variable {t t' : Table} {barrier : Option StoreFault} {now : String}

theorem applyOne_upsert_eq_ok_iff {record : Record} {result : Option Int} :
    t.applyOne barrier now (.upsert record) = .ok (t', result) ↔
      record.firstUnbound? = none ∧ barrier = none ∧ firstMissing? record.cells = none ∧
        t' = (t.write record.cells now).1 ∧ result = some (t.rowFor record.cells now).id := by
  rw [← snd_write]
  cases hFit : record.firstUnbound? with
  | some refusal => simp [applyOne, hFit]
  | none =>
    cases barrier with
    | some fault => simp [applyOne, hFit]
    | none =>
      cases hMissing : firstMissing? record.cells <;>
        simp [applyOne, hFit, hMissing, eq_comm]

theorem applyOne_delete_eq_ok_iff {id : Int} {result : Option Int} :
    t.applyOne barrier now (.delete id) = .ok (t', result) ↔
      fitsWord id = true ∧ barrier = none ∧ t' = t.delete id ∧ result = none := by
  cases hFits : fitsWord id with
  | false => simp [applyOne, hFits]
  | true => cases barrier <;> simp [applyOne, hFits, eq_comm]

theorem applyAll_cons_eq_ok {op : Operation} {ops : List Operation} {results : List (Option Int)}
    (h : t.applyAll barrier now (op :: ops) = .ok (t', results)) :
    ∃ between result rest, t.applyOne barrier now op = .ok (between, result) ∧
      between.applyAll barrier now ops = .ok (t', rest) ∧ results = result :: rest := by
  rw [applyAll] at h
  cases hOne : t.applyOne barrier now op with
  | error refusal => simp [hOne] at h
  | ok done =>
    obtain ⟨between, result⟩ := done
    cases hRest : between.applyAll barrier now ops with
    | error refusal => simp [hOne, hRest] at h
    | ok done =>
      simp only [hOne, hRest, Except.ok.injEq, Prod.mk.injEq] at h
      exact ⟨between, result, done.2, rfl, by rw [hRest, ← h.1], h.2.symm⟩

theorem unfit?_eq_none_of_applyOne {op : Operation} {result : Option Int}
    (h : t.applyOne barrier now op = .ok (t', result)) : op.unfit? = none := by
  cases op with
  | upsert record => exact (applyOne_upsert_eq_ok_iff.mp h).1
  | delete id => simp [Operation.unfit?, (applyOne_delete_eq_ok_iff.mp h).1]
  | unknown v => cases h

theorem unfit?_eq_none_of_applyAll {ops : List Operation} {results : List (Option Int)}
    (h : t.applyAll barrier now ops = .ok (t', results)) : ∀ op ∈ ops, op.unfit? = none := by
  induction ops generalizing t results with
  | nil => simp
  | cons op ops ih =>
    obtain ⟨between, result, rest, hOne, hRest, -⟩ := applyAll_cons_eq_ok h
    intro other hOther
    rcases List.mem_cons.mp hOther with rfl | hOther
    · exact unfit?_eq_none_of_applyOne hOne
    · exact ih hRest other hOther

def pathOf (record : Record) : Cell := record.cells .path

/-- The table differs from an earlier one by the rows of some records: each of them stands at its
path, and nothing else has changed. -/
structure Writes (before : Table) (records : List Record) (after : Table) : Prop where
  sound : after.Sound
  counter : after.counter = before.counter + records.length
  written : ∀ record ∈ records, ∃ row, after.rowOf? (pathOf record) = some row ∧
    row.cells = record.cells ∧ row.Inherits (before.rowOf? (pathOf record)) before.counter
  others : ∀ c, (∀ record ∈ records, pathOf record ≠ c) → after.rowOf? c = before.rowOf? c

theorem Writes.counter_le {before after : Table} {records : List Record}
    (h : before.Writes records after) : before.counter ≤ after.counter := by
  rw [h.counter]
  omega

theorem Sound.writes_nil (h : t.Sound) : t.Writes [] t where
  sound := h
  counter := by simp
  written := by simp
  others := fun _ _ => rfl

theorem Sound.writes_write (h : t.Sound) (record : Record) (now : String) :
    t.Writes [record] (t.write record.cells now).1 where
  sound := h.write record.cells now
  counter := by
    rw [counter_write]
    rfl
  written other hOther := by
    obtain rfl := List.mem_singleton.mp hOther
    exact ⟨_, h.rowOf?_write_same other.cells now, rowFor_cells other.cells now,
      rowFor_inherits other.cells now⟩
  others c hc := h.rowOf?_write_of_ne record.cells now fun hEq => hc record (by simp) hEq.symm

theorem Writes.trans {before between after : Table} {records more : List Record}
    (h : before.Writes records between) (h' : between.Writes more after)
    (hDisjoint : ∀ r ∈ records, ∀ s ∈ more, pathOf r ≠ pathOf s) :
    before.Writes (records ++ more) after where
  sound := h'.sound
  counter := by
    rw [h'.counter, h.counter, List.length_append, Int.natCast_add, Int.add_assoc]
  written record hRecord := by
    rcases List.mem_append.mp hRecord with hRecord | hRecord
    · rw [h'.others _ fun other hOther hEq => hDisjoint record hRecord other hOther hEq.symm]
      exact h.written record hRecord
    · obtain ⟨row, hRow, hCells, hInherits⟩ := h'.written record hRecord
      rw [h.others _ fun other hOther => hDisjoint other hOther record hRecord] at hInherits
      exact ⟨row, hRow, hCells, hInherits.mono h.counter_le⟩
  others c hc := by
    rw [h'.others c fun other hOther => hc other (List.mem_append_right _ hOther)]
    exact h.others c fun other hOther => hc other (List.mem_append_left _ hOther)

theorem Writes.row_of_row {before after : Table} {records : List Record}
    (h : before.Writes records after) {c : Cell} {old : Row} (hOld : before.rowOf? c = some old) :
    ∃ row, after.rowOf? c = some row ∧ row.id = old.id ∧ row.added = old.added := by
  by_cases hWritten : ∃ record ∈ records, pathOf record = c
  · obtain ⟨record, hRecord, rfl⟩ := hWritten
    obtain ⟨row, hRow, _, hInherits⟩ := h.written record hRecord
    rw [hOld] at hInherits
    exact ⟨row, hRow, hInherits⟩
  · refine ⟨old, ?_, rfl, rfl⟩
    rw [h.others c fun record hRecord hEq => hWritten ⟨record, hRecord, hEq⟩, hOld]

/-- A row is one that was there before, or it has the cells of a record. -/
theorem Writes.mem_cases {before after : Table} {records : List Record}
    (h : before.Writes records after) {r : Row} (hr : r ∈ after.rows) :
    r ∈ before.rows ∨ ∃ record ∈ records, r.cells = record.cells ∧
      r.Inherits (before.rowOf? (r.cells .path)) before.counter := by
  have hRow := h.sound.rowOf?_of_mem hr
  by_cases hWritten : ∃ record ∈ records, pathOf record = r.cells .path
  · obtain ⟨record, hRecord, hPath⟩ := hWritten
    obtain ⟨row, hSame, hCells, hInherits⟩ := h.written record hRecord
    rw [hPath] at hSame hInherits
    obtain rfl := Option.some.inj (hSame.symm.trans hRow)
    exact .inr ⟨record, hRecord, hCells, hInherits⟩
  · rw [h.others _ fun record hRecord hPath => hWritten ⟨record, hRecord, hPath⟩] at hRow
    exact .inl (mem_of_rowOf?_eq_some hRow).1

/-- A row has a new number, or the number and the date of one that stood at its path before. -/
theorem Writes.new_or_old {before after : Table} {records : List Record}
    (h : before.Writes records after) {r : Row} (hr : r ∈ after.rows) :
    before.counter < r.id ∨ ∃ old ∈ before.rows,
      old.id = r.id ∧ old.cells .path = r.cells .path ∧ old.added = r.added := by
  rcases h.mem_cases hr with hOld | ⟨record, -, -, hInherits⟩
  · exact .inr ⟨r, hOld, rfl, rfl, rfl⟩
  · cases hOld : before.rowOf? (r.cells .path) with
    | none =>
      rw [hOld] at hInherits
      exact .inl hInherits
    | some old =>
      rw [hOld] at hInherits
      obtain ⟨hMem, hPath⟩ := mem_of_rowOf?_eq_some hOld
      exact .inr ⟨old, hMem, hInherits.1.symm, hPath, hInherits.2.symm⟩

def numberOf? (t : Table) (record : Record) : Option Int :=
  (t.rowOf? (pathOf record)).map (·.id)

/-- A batch of records is written as a whole, and it tells where each of them stands. -/
theorem Sound.writes_applyAll (h : t.Sound) {records : List Record} {results : List (Option Int)}
    (hDistinct : (records.map pathOf).Nodup)
    (hApply : t.applyAll barrier now (records.map .upsert) = .ok (t', results)) :
    t.Writes records t' ∧ results = records.map t'.numberOf? := by
  induction records generalizing t results with
  | nil =>
    simp only [List.map_nil, applyAll, Except.ok.injEq, Prod.mk.injEq] at hApply
    exact ⟨hApply.1 ▸ h.writes_nil, hApply.2.symm⟩
  | cons record records ih =>
    rw [List.map_cons, List.nodup_cons] at hDistinct
    obtain ⟨between, result, rest, hOne, hRest, rfl⟩ := applyAll_cons_eq_ok hApply
    obtain ⟨-, -, -, rfl, rfl⟩ := applyOne_upsert_eq_ok_iff.mp hOne
    have hFirst := h.writes_write record now
    obtain ⟨hMore, rfl⟩ := ih hFirst.sound hDistinct.2 hRest
    have hOther : ∀ other ∈ records, pathOf other ≠ pathOf record := fun other hOther hEq =>
      hDistinct.1 (hEq ▸ List.mem_map_of_mem hOther)
    refine ⟨hFirst.trans hMore fun r hr s hs => ?_, ?_⟩
    · obtain rfl := List.mem_singleton.mp hr
      exact (hOther s hs).symm
    · rw [List.map_cons, numberOf?, hMore.others _ hOther, pathOf, h.rowOf?_write_same]
      rfl

/-- The table has lost the rows of some numbers and is otherwise as before. -/
structure Erases (before : Table) (ids : List Int) (after : Table) : Prop where
  sound : after.Sound
  counter : after.counter = before.counter
  rows : ∀ c, after.rowOf? c = (before.rowOf? c).filter fun r => r.id ∉ ids

theorem Sound.erases_nil (h : t.Sound) : t.Erases [] t where
  sound := h
  counter := rfl
  rows c := by cases t.rowOf? c <;> simp [Option.filter]

theorem Erases.trans {before between after : Table} {ids more : List Int}
    (h : before.Erases ids between) (h' : between.Erases more after) :
    before.Erases (ids ++ more) after where
  sound := h'.sound
  counter := h'.counter.trans h.counter
  rows c := by
    rw [h'.rows, h.rows, Option.filter_filter]
    congr 1
    funext r
    simp [not_or]

theorem Sound.erases_delete (h : t.Sound) (id : Int) : t.Erases [id] (t.delete id) where
  sound := h.delete id
  counter := rfl
  rows c := by simpa using h.rowOf?_delete id c

theorem Sound.erases_applyAll (h : t.Sound) {ids : List Int} {results : List (Option Int)}
    (hApply : t.applyAll barrier now (ids.map .delete) = .ok (t', results)) :
    t.Erases ids t' ∧ results.filterMap id = [] := by
  induction ids generalizing t results with
  | nil =>
    simp only [List.map_nil, applyAll, Except.ok.injEq, Prod.mk.injEq] at hApply
    exact ⟨hApply.1 ▸ h.erases_nil, hApply.2 ▸ rfl⟩
  | cons id ids ih =>
    obtain ⟨between, result, rest, hOne, hRest, rfl⟩ := applyAll_cons_eq_ok hApply
    obtain ⟨-, -, rfl, rfl⟩ := applyOne_delete_eq_ok_iff.mp hOne
    have hFirst := h.erases_delete id
    obtain ⟨hMore, hNone⟩ := ih hFirst.sound hRest
    exact ⟨hFirst.trans hMore, hNone⟩

/-! ## Tables that count from one -/

/-- The numbers start from one, and the table has counted no further than a bound. -/
structure Numbered (t : Table) (bound : Nat) : Prop where
  positive : ∀ r ∈ t.rows, 0 < r.id
  started : 0 ≤ t.counter
  bounded : t.counter ≤ bound

theorem numbered_empty : empty.Numbered 0 := ⟨by simp [empty], Int.le_refl 0, Int.le_refl 0⟩

variable {before after : Table} {bound : Nat}

theorem Writes.numbered {records : List Record} (h : before.Writes records after)
    (hBefore : before.Numbered bound) : after.Numbered (bound + records.length) where
  positive r hr := by
    rcases h.new_or_old hr with hNew | ⟨old, hOld, hId, -, -⟩
    · exact Int.lt_of_le_of_lt hBefore.started hNew
    · exact hId ▸ hBefore.positive old hOld
  started := Int.le_trans hBefore.started h.counter_le
  bounded := by
    have := hBefore.bounded
    rw [h.counter]
    omega

theorem Erases.numbered {ids : List Int} (h : before.Erases ids after)
    (hBefore : before.Numbered bound) : after.Numbered bound where
  positive r hr := by
    have hRow := h.sound.rowOf?_of_mem hr
    rw [h.rows, Option.filter_eq_some_iff] at hRow
    exact hBefore.positive r (mem_of_rowOf?_eq_some hRow.1).1
  started := h.counter ▸ hBefore.started
  bounded := h.counter ▸ hBefore.bounded

theorem Numbered.fitsWord (h : t.Numbered bound) (hSound : t.Sound)
    (hBound : bound < 0x8000000000000000) : ∀ r ∈ t.rows, fitsWord r.id = true := by
  intro r hr
  have hPositive := h.positive r hr
  have hCounted := hSound.counted r hr
  have hBounded := h.bounded
  rw [Catalog.fitsWord, Bool.and_eq_true, decide_eq_true_eq, decide_eq_true_eq]
  omega

end MediaIndex.Catalog.Table
