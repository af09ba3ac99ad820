import MediaIndex.Proofs.StoreHealth

/-!
# What a batch does

A batch that is applied has the effects of its operations one after the other: a record replaces the
cells of the row at its path, which keeps its number and date, or it adds a row with the next
number; a deletion takes the row of its number. A batch that fails leaves what was there. Which of
the two happens is told by the store and by the values of the operations.
-/

namespace MediaIndex.Catalog

theorem exists_ok_of_map {ε α β : Type} {x : Except ε α} {f : α → β} {b : β}
    (h : x.map f = .ok b) : ∃ a, x = .ok a ∧ f a = b := by
  cases x with
  | error e => cases h
  | ok a => exact ⟨a, rfl, Except.ok.inj h⟩

/-! ## Tables known by their rows -/

namespace Table

variable {t t' before between after : Table} {now : String}

theorem Sound.nodup (h : t.Sound) : t.rows.Nodup := h.distinct.of_map _

/-- A sound table is known by its counter and by what it has at each path. -/
theorem Sound.eq_of_rowOf?_eq (h : t.Sound) (h' : t'.Sound) (hCounter : t.counter = t'.counter)
    (hRows : ∀ c, t.rowOf? c = t'.rowOf? c) : t = t' := by
  have hMem : ∀ r, r ∈ t.rows ↔ r ∈ t'.rows := by
    intro r
    have hHere : r ∈ t.rows ↔ t.rowOf? (r.cells .path) = some r := by
      rw [h.rowOf?_eq_some_iff, and_iff_left rfl]
    rw [hHere, hRows, h'.rowOf?_eq_some_iff, and_iff_left rfl]
  have hPerm : t.rows.Perm t'.rows := (List.perm_ext_iff_of_nodup h.nodup h'.nodup).mpr hMem
  have hIncreasing : t.rows.Pairwise fun r s => r.id < s.id := List.pairwise_map.mp h.increasing
  have hIncreasing' : t'.rows.Pairwise fun r s => r.id < s.id :=
    List.pairwise_map.mp h'.increasing
  have hSame : t.rows = t'.rows :=
    hPerm.eq_of_pairwise (fun r s _ _ hLt hGt => absurd hLt (Int.lt_asymm hGt)) hIncreasing
      hIncreasing'
  cases t
  cases t'
  congr

/-! ## Effects of operations -/

/-- What one operation makes of a table, and what it tells. -/
inductive Effect (now : String) (before after : Table) : Operation → Option Int → Prop
  | replaced {record : Record} {old : Row} (hSound : after.Sound)
      (hOld : before.rowOf? (pathOf record) = some old)
      (hRow : after.rowOf? (pathOf record) = some { old with cells := record.cells })
      (hOthers : ∀ c, c ≠ pathOf record → after.rowOf? c = before.rowOf? c)
      (hCounter : after.counter = before.counter + 1) :
      Effect now before after (.upsert record) (some old.id)
  | added {record : Record} (hSound : after.Sound)
      (hNone : before.rowOf? (pathOf record) = none)
      (hRow : after.rowOf? (pathOf record) = some ⟨before.counter + 1, record.cells, now⟩)
      (hOthers : ∀ c, c ≠ pathOf record → after.rowOf? c = before.rowOf? c)
      (hCounter : after.counter = before.counter + 1) :
      Effect now before after (.upsert record) (some (before.counter + 1))
  | deleted {id : Int} (hSound : after.Sound)
      (hRows : ∀ c, after.rowOf? c = (before.rowOf? c).filter (·.id ≠ id))
      (hCounter : after.counter = before.counter) : Effect now before after (.delete id) none

/-- The operations take effect from the left to the right. -/
inductive Effects (now : String) : Table → List Operation → List (Option Int) → Table → Prop
  | nil {t : Table} : Effects now t [] [] t
  | cons {before between after : Table} {op : Operation} {ops : List Operation}
      {result : Option Int} {results : List (Option Int)}
      (hFirst : Effect now before between op result)
      (hRest : Effects now between ops results after) :
      Effects now before (op :: ops) (result :: results) after

variable {op : Operation} {ops : List Operation} {result : Option Int}
  {results : List (Option Int)}

theorem Effect.sound (h : Effect now before after op result) : after.Sound := by
  cases h with
  | replaced hSound => exact hSound
  | added hSound => exact hSound
  | deleted hSound => exact hSound

theorem Effects.sound (h : Effects now before ops results after) (hBefore : before.Sound) :
    after.Sound := by
  induction h with
  | nil => exact hBefore
  | cons hFirst hRest ih => exact ih hFirst.sound

/-- Off a path two tables that have the same rows there as a third one have the same rows. -/
theorem eq_of_rowOf?_eq_off {c : Cell} {row : Row} (h : t.Sound) (h' : t'.Sound)
    (hCounter : t.counter = t'.counter) (hRow : t.rowOf? c = some row)
    (hRow' : t'.rowOf? c = some row) (hOff : ∀ d, d ≠ c → t.rowOf? d = before.rowOf? d)
    (hOff' : ∀ d, d ≠ c → t'.rowOf? d = before.rowOf? d) : t = t' := by
  refine h.eq_of_rowOf?_eq h' hCounter fun d => ?_
  by_cases hPath : d = c
  · rw [hPath, hRow, hRow']
  · rw [hOff d hPath, hOff' d hPath]

/-- An operation has no more than one effect. -/
theorem Effect.unique {result' : Option Int} (h : Effect now before after op result)
    (h' : Effect now before t' op result') : after = t' ∧ result = result' := by
  cases h with
  | replaced hSound hOld hRow hOthers hCounter =>
    cases h' with
    | replaced hSound' hOld' hRow' hOthers' hCounter' =>
      obtain rfl := Option.some.inj (hOld.symm.trans hOld')
      exact ⟨eq_of_rowOf?_eq_off hSound hSound' (hCounter.trans hCounter'.symm) hRow hRow' hOthers
        hOthers', rfl⟩
    | added _ hNone => simp [hNone] at hOld
  | added hSound hNone hRow hOthers hCounter =>
    cases h' with
    | replaced _ hOld => simp [hNone] at hOld
    | added hSound' _ hRow' hOthers' hCounter' =>
      exact ⟨eq_of_rowOf?_eq_off hSound hSound' (hCounter.trans hCounter'.symm) hRow hRow' hOthers
        hOthers', rfl⟩
  | deleted hSound hRows hCounter =>
    cases h' with
    | deleted hSound' hRows' hCounter' =>
      refine ⟨hSound.eq_of_rowOf?_eq hSound' (hCounter.trans hCounter'.symm) fun c => ?_, rfl⟩
      rw [hRows, hRows']

theorem Effects.unique {results' : List (Option Int)} (h : Effects now before ops results after)
    (h' : Effects now before ops results' t') : after = t' ∧ results = results' := by
  induction h generalizing results' with
  | nil =>
    cases h'
    exact ⟨rfl, rfl⟩
  | cons hFirst hRest ih =>
    cases h' with
    | cons hFirst' hRest' =>
      obtain ⟨rfl, rfl⟩ := hFirst.unique hFirst'
      obtain ⟨rfl, rfl⟩ := ih hRest'
      exact ⟨rfl, rfl⟩

/-! ## What the operations tell -/

theorem Effects.length_eq (h : Effects now before ops results after) :
    results.length = ops.length := by
  induction h with
  | nil => rfl
  | cons hFirst hRest ih => simp [ih]

theorem Effect.writes {record : Record} (h : Effect now before after (.upsert record) result) :
    before.Writes [record] after := by
  cases h with
  | replaced hSound hOld hRow hOthers hCounter =>
    refine ⟨hSound, hCounter, ?_, fun c hc => hOthers c fun hPath => hc record (by simp) hPath.symm⟩
    intro other hOther
    obtain rfl := List.mem_singleton.mp hOther
    exact ⟨_, hRow, rfl, hOld ▸ ⟨rfl, rfl⟩⟩
  | added hSound hNone hRow hOthers hCounter =>
    refine ⟨hSound, hCounter, ?_, fun c hc => hOthers c fun hPath => hc record (by simp) hPath.symm⟩
    intro other hOther
    obtain rfl := List.mem_singleton.mp hOther
    exact ⟨_, hRow, rfl, hNone ▸ Int.lt_succ before.counter⟩

/-- What an operation tells of a record is the number that its path has right after it. -/
theorem Effect.eq_numberOf? {record : Record}
    (h : Effect now before after (.upsert record) result) :
    ∃ id, after.numberOf? record = some id ∧ result = some id := by
  cases h with
  | replaced _ _ hRow => exact ⟨_, by rw [numberOf?, hRow]; rfl, rfl⟩
  | added _ _ hRow => exact ⟨_, by rw [numberOf?, hRow]; rfl, rfl⟩

theorem Effect.eq_none_iff (h : Effect now before after op result) :
    result = none ↔ ∃ id, op = .delete id := by
  cases h with
  | replaced => simp
  | added => simp
  | deleted => simp

theorem Effects.getElem?_eq_none_iff (h : Effects now before ops results after) (i : Nat) :
    results[i]? = some none ↔ ∃ id, ops[i]? = some (.delete id) := by
  induction h generalizing i with
  | nil => simp
  | cons hFirst hRest ih =>
    cases i with
    | zero => simpa using hFirst.eq_none_iff
    | succ i => simpa using ih i

theorem Effects.getElem?_upsert (h : Effects now before ops results after) {i : Nat}
    {record : Record} (hOp : ops[i]? = some (.upsert record)) :
    ∃ between id, Effects now before (ops.take (i + 1)) (results.take (i + 1)) between ∧
      between.numberOf? record = some id ∧ results[i]? = some (some id) := by
  induction h generalizing i with
  | nil => simp at hOp
  | @cons _ between _ op ops result results hFirst hRest ih =>
    cases i with
    | zero =>
      obtain rfl : op = .upsert record := by simpa using hOp
      obtain ⟨id, hNumber, rfl⟩ := hFirst.eq_numberOf?
      exact ⟨between, id, .cons hFirst .nil, hNumber, rfl⟩
    | succ i =>
      obtain ⟨between, id, hTake, hNumber, hResult⟩ := ih (by simpa using hOp)
      exact ⟨between, id, .cons hFirst hTake, hNumber, by simpa using hResult⟩

/-! ## Operations that are applied -/

variable {barrier : Option StoreFault}

theorem Sound.effect_write (h : t.Sound) (record : Record) :
    Effect now t (t.write record.cells now).1 (.upsert record)
      (some (t.rowFor record.cells now).id) := by
  have hRow := h.rowOf?_write_same record.cells now
  have hOthers : ∀ c, c ≠ pathOf record → (t.write record.cells now).1.rowOf? c = t.rowOf? c :=
    fun c hc => h.rowOf?_write_of_ne record.cells now hc
  have hCounter := t.counter_write record.cells now
  cases hOld : t.rowOf? (record.cells .path) with
  | none =>
    have hFor : t.rowFor record.cells now = ⟨t.counter + 1, record.cells, now⟩ := by
      rw [rowFor, hOld]
    rw [hFor] at hRow ⊢
    exact .added (h.write record.cells now) hOld hRow hOthers hCounter
  | some old =>
    have hFor : t.rowFor record.cells now = { old with cells := record.cells } := by
      rw [rowFor, hOld]
    rw [hFor] at hRow ⊢
    have hEffect : Effect now t (t.write record.cells now).1 (.upsert record) (some old.id) :=
      .replaced (h.write record.cells now) hOld hRow hOthers hCounter
    exact hEffect

theorem Sound.effect_applyOne (h : t.Sound)
    (hApply : t.applyOne barrier now op = .ok (t', result)) : Effect now t t' op result := by
  cases op with
  | upsert record =>
    obtain ⟨-, -, -, rfl, rfl⟩ := applyOne_upsert_eq_ok_iff.mp hApply
    exact h.effect_write record
  | delete id =>
    obtain ⟨-, -, rfl, rfl⟩ := applyOne_delete_eq_ok_iff.mp hApply
    exact .deleted (h.delete id) (h.rowOf?_delete id) rfl
  | unknown v => cases hApply

theorem Sound.effects_applyAll (h : t.Sound)
    (hApply : t.applyAll barrier now ops = .ok (t', results)) : Effects now t ops results t' := by
  induction ops generalizing t results with
  | nil =>
    simp only [applyAll, Except.ok.injEq, Prod.mk.injEq] at hApply
    obtain ⟨rfl, rfl⟩ := hApply
    exact .nil
  | cons op ops ih =>
    obtain ⟨between, result, rest, hOne, hRest, rfl⟩ := applyAll_cons_eq_ok hApply
    have hFirst := h.effect_applyOne hOne
    exact .cons hFirst (ih hFirst.sound hRest)

/-! ## Operations that can be applied -/

theorem isFit_of_applyOne (h : t.applyOne barrier now op = .ok (t', result)) :
    op.IsFit ∧ barrier = none := by
  cases op with
  | upsert record =>
    obtain ⟨hFit, hBarrier, hComplete, -⟩ := applyOne_upsert_eq_ok_iff.mp h
    exact ⟨⟨hFit, by rintro _ ⟨⟩; exact hComplete⟩, hBarrier⟩
  | delete id =>
    obtain ⟨-, hBarrier, -⟩ := applyOne_delete_eq_ok_iff.mp h
    exact ⟨⟨unfit?_eq_none_of_applyOne h, by simp⟩, hBarrier⟩
  | unknown v => cases h

theorem isFit_of_applyAll (h : t.applyAll barrier now ops = .ok (t', results)) :
    (∀ op ∈ ops, op.IsFit) ∧ (ops ≠ [] → barrier = none) := by
  induction ops generalizing t results with
  | nil => simp
  | cons op ops ih =>
    obtain ⟨between, result, rest, hOne, hRest, -⟩ := applyAll_cons_eq_ok h
    obtain ⟨hFit, hBarrier⟩ := isFit_of_applyOne hOne
    exact ⟨List.forall_mem_cons.mpr ⟨hFit, (ih hRest).1⟩, fun _ => hBarrier⟩

end Table

/-! ## Batches -/

namespace Store

/-- Nothing keeps the store from applying a batch. One of nothing needs no table and meets no
lock. -/
structure Accepts (s : Store) (ops : List Operation) : Prop where
  isOpen : s.isOpen = true
  batches : 0 ∉ s.failingBatches
  table : ops ≠ [] → s.contents.isTable = true
  unlocked : ops ≠ [] → s.locked = false
  fit : ∀ op ∈ ops, op.IsFit

variable {s : Store} {ops : List Operation}

theorem submit_eq_ok_iff {ids : List (Option Int)} :
    (s.submit ops).1 = .ok ids ↔ ∃ contents, s.batch ops = .ok (contents, ids) := by
  cases hBatch : s.batch ops with
  | error refusal => simp [submit, hBatch]
  | ok done => simp [submit, hBatch, Prod.ext_iff]

theorem eq_nil_of_refuse {absent : Bool} {ids : List (Option Int)}
    (h : s.refuse absent ops = .ok ids) : ops = [] ∧ ids = [] := by
  unfold refuse at h
  split at h
  · exact ⟨rfl, (Except.ok.inj h).symm⟩
  · cases h
  · cases h

theorem Accepts.batch_nil (h : s.Accepts []) : s.batch [] = .ok (s.contents, []) := by
  rw [batch, if_neg h.batches, if_neg (by simp [h.isOpen])]
  cases s.contents <;> rfl

theorem Accepts.exists_batch (h : s.Accepts ops) : ∃ done, s.batch ops = .ok done := by
  by_cases hNil : ops = []
  · subst hNil
    exact ⟨_, h.batch_nil⟩
  · have hTable := h.table hNil
    rw [batch, if_neg h.batches, if_neg (by simp [h.isOpen])]
    cases hContents : s.contents with
    | absent => simp [hContents, Contents.isTable] at hTable
    | foreign => simp [hContents, Contents.isTable] at hTable
    | table t =>
      have hBarrier : s.barrier = none := by simp [barrier, h.unlocked hNil]
      obtain ⟨done, hAll⟩ : ∃ done, t.applyAll none (isoText s.clock) ops = .ok done :=
        Table.applyAll_of_isFit h.fit
      simp only [hBarrier, hAll]
      exact ⟨_, rfl⟩

theorem accepts_of_batch {done : Contents × List (Option Int)} (h : s.batch ops = .ok done) :
    s.Accepts ops := by
  unfold batch at h
  split at h
  · cases h
  · next hBatches =>
    split at h
    · cases h
    · next hOpen =>
      have hOpen : s.isOpen = true := by simpa using hOpen
      have hNothing (hNil : ops = []) : s.Accepts ops :=
        ⟨hOpen, hBatches, absurd hNil, absurd hNil, by simp [hNil]⟩
      split at h
      · obtain ⟨ids, hIds, -⟩ := exists_ok_of_map h
        exact hNothing (eq_nil_of_refuse hIds).1
      · obtain ⟨ids, hIds, -⟩ := exists_ok_of_map h
        exact hNothing (eq_nil_of_refuse hIds).1
      · next t hContents =>
        obtain ⟨applied, hAll, -⟩ := exists_ok_of_map h
        obtain ⟨hFit, hBarrier⟩ := Table.isFit_of_applyAll hAll
        refine ⟨hOpen, hBatches, fun _ => by rw [hContents]; rfl, fun hSome => ?_, hFit⟩
        simpa [barrier] using hBarrier hSome

/-- A batch is applied exactly if nothing keeps the store from it. -/
theorem exists_submit_eq_ok_iff : (∃ ids, (s.submit ops).1 = .ok ids) ↔ s.Accepts ops := by
  constructor
  · rintro ⟨ids, hReply⟩
    obtain ⟨contents, hBatch⟩ := submit_eq_ok_iff.mp hReply
    exact accepts_of_batch hBatch
  · intro h
    obtain ⟨⟨contents, ids⟩, hBatch⟩ := h.exists_batch
    exact ⟨ids, submit_eq_ok_iff.mpr ⟨contents, hBatch⟩⟩

/-- A batch that fails leaves the store with what it had. -/
theorem contents_of_submit_eq_error {failure : Failure} (h : (s.submit ops).1 = .error failure) :
    (s.submit ops).2.contents = s.contents := by
  cases hBatch : s.batch ops with
  | error refusal => simp [submit, hBatch]
  | ok done => simp [submit, hBatch] at h

/-- Where the table is missing only a batch of nothing is applied. -/
theorem nothing_of_batch {contents : Contents} {ids : List (Option Int)}
    (h : s.batch ops = .ok (contents, ids)) (hMissing : s.contents.isTable = false) :
    ops = [] ∧ ids = [] ∧ contents = s.contents := by
  have hAccepts := accepts_of_batch h
  have hNil : ops = [] := by
    by_contra hSome
    rw [hAccepts.table hSome] at hMissing
    cases hMissing
  subst hNil
  rw [hAccepts.batch_nil] at h
  cases h
  exact ⟨rfl, rfl, rfl⟩

theorem contents_of_submit_eq_ok {contents : Contents} {ids : List (Option Int)}
    (h : s.batch ops = .ok (contents, ids)) : (s.submit ops).2.contents = contents := by
  simp [submit, h]

/-- A batch is applied as a whole or not at all. It is applied exactly if nothing keeps the store
from it, and then the table becomes what the operations make of it one after the other, from the
left to the right; of each operation the batch tells nothing if it is a deletion, and else the
number that the path has right after it. A batch that fails leaves all as it was. -/
theorem submit_all_or_nothing (s : Store) (ops : List Operation) :
    ((∃ ids, (s.submit ops).1 = .ok ids) ↔ s.Accepts ops) ∧
      (∀ failure, (s.submit ops).1 = .error failure → (s.submit ops).2.contents = s.contents) ∧
      ∀ ids, (s.submit ops).1 = .ok ids →
        (s.contents.isTable = false →
          ops = [] ∧ ids = [] ∧ (s.submit ops).2.contents = s.contents) ∧
        ∀ before, s.contents = .table before → before.Sound →
          (∃ after, (s.submit ops).2.contents = .table after ∧ ∀ results other,
            Table.Effects (isoText s.clock) before ops results other ↔
              results = ids ∧ other = after) ∧
          ids.length = ops.length ∧
          (∀ i : Nat, ids[i]? = some none ↔ ∃ id, ops[i]? = some (.delete id)) ∧
          ∀ (i : Nat) record, ops[i]? = some (.upsert record) → ∃ between id,
            Table.Effects (isoText s.clock) before (ops.take (i + 1)) (ids.take (i + 1)) between ∧
              between.numberOf? record = some id ∧ ids[i]? = some (some id) := by
  refine ⟨exists_submit_eq_ok_iff, fun failure => contents_of_submit_eq_error, ?_⟩
  intro ids hReply
  obtain ⟨contents, hBatch⟩ := submit_eq_ok_iff.mp hReply
  rw [contents_of_submit_eq_ok hBatch]
  refine ⟨nothing_of_batch hBatch, ?_⟩
  intro before hs hSound
  obtain ⟨after, rfl, hAll⟩ := Reconcile.batch_eq_ok hs hBatch
  have hEffects := hSound.effects_applyAll hAll
  refine ⟨⟨after, rfl, ?_⟩, hEffects.length_eq, hEffects.getElem?_eq_none_iff,
    fun i record => hEffects.getElem?_upsert⟩
  intro results other
  constructor
  · intro hOther
    exact ⟨(hOther.unique hEffects).2, (hOther.unique hEffects).1⟩
  · rintro ⟨rfl, rfl⟩
    exact hEffects

end Store

/-! ## A batch over a table with one row -/

def listRecord (path : String) (size : Int) : Record := .basic path "/" size 1600000000 "list"

def listTable : Table := ⟨[⟨1, (listRecord "/m/a.m3u" 3).cells, "2024-01-01"⟩], 4⟩

/-- It replaces the row, adds another one, deletes that, and adds it again. -/
def mixedBatch : List Operation :=
  [.upsert (listRecord "/m/a.m3u" 5), .upsert (listRecord "/m/b.m3u" 7), .delete 6,
    .upsert (listRecord "/m/b.m3u" 9)]

theorem listTable_sound : listTable.Sound := ⟨by decide, by decide, by decide⟩

theorem submit_all_or_nothing_mixed :
    (∃ after, ((Store.ofTable listTable 0).submit mixedBatch).2.contents = .table after ∧
      Table.Effects (isoText 0) listTable mixedBatch [some 1, some 6, none, some 7] after) ∧
    ((Store.ofTable listTable 0).submit (mixedBatch ++ [.unknown .null])).2.contents =
      .table listTable := by
  have hReply : ((Store.ofTable listTable 0).submit mixedBatch).1 =
      .ok [some 1, some 6, none, some 7] := by decide +kernel
  obtain ⟨-, -, hApplied⟩ := Store.submit_all_or_nothing (.ofTable listTable 0) mixedBatch
  obtain ⟨hReturns, hFails, -⟩ :=
    Store.submit_all_or_nothing (.ofTable listTable 0) (mixedBatch ++ [.unknown .null])
  constructor
  · obtain ⟨⟨after, hAfter, hEffects⟩, -⟩ := (hApplied _ hReply).2 listTable rfl listTable_sound
    exact ⟨after, hAfter, (hEffects _ _).mpr ⟨rfl, rfl⟩⟩
  · cases hFailing : ((Store.ofTable listTable 0).submit (mixedBatch ++ [.unknown .null])).1 with
    | error failure => exact hFails failure hFailing
    | ok ids => cases ((hReturns.mp ⟨ids, hFailing⟩).fit (.unknown .null) (by simp)).fits

end MediaIndex.Catalog
