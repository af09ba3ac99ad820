import MediaIndex.Proofs.BatchRows
import MediaIndex.Proofs.Calls

/-!
# Stores without trouble of their own

A store that is open, has its table and fails no query answers every query, and it refuses a batch
only for a value that cannot be given to the table. If no lock and no failure is in the way, it
applies every batch whose values can be given and are complete. Neither changes as calls are made.
-/

namespace MediaIndex.Catalog

theorem eq_error_of_map {ε α β : Type} {x : Except ε α} {f : α → β} {e : ε}
    (h : x.map f = .error e) : x = .error e := by
  cases x with
  | error other => exact congrArg _ (Except.error.inj h)
  | ok a => cases h

/-- The values of the operation can be given to the table, and none is missing. -/
structure Operation.IsFit (op : Operation) : Prop where
  fits : op.unfit? = none
  complete : ∀ record, op = .upsert record → firstMissing? record.cells = none

namespace Table

variable {t : Table} {now : String}

theorem applyOne_of_isFit {op : Operation} (h : op.IsFit) :
    ∃ done, t.applyOne none now op = .ok done := by
  cases op with
  | upsert record =>
    exact ⟨_, applyOne_upsert_eq_ok_iff.mpr ⟨h.fits, rfl, h.complete record rfl, rfl, rfl⟩⟩
  | delete id =>
    have hFits : fitsWord id = true := by simpa [Operation.unfit?] using h.fits
    exact ⟨_, applyOne_delete_eq_ok_iff.mpr ⟨hFits, rfl, rfl, rfl⟩⟩
  | unknown v => cases h.fits

theorem applyAll_of_isFit {ops : List Operation} (h : ∀ op ∈ ops, op.IsFit) :
    ∃ done, t.applyAll none now ops = .ok done := by
  induction ops generalizing t with
  | nil => exact ⟨(t, []), rfl⟩
  | cons op ops ih =>
    obtain ⟨⟨between, result⟩, hOne⟩ : ∃ done, t.applyOne none now op = .ok done :=
      applyOne_of_isFit (h op List.mem_cons_self)
    obtain ⟨done, hRest⟩ := ih (t := between) fun other hOther => h other
      (List.mem_cons_of_mem op hOther)
    exact ⟨(done.1, result :: done.2), by rw [applyAll, hOne]; simp only [hRest]⟩

/-- An operation that is refused has a value that cannot be given, or it meets a fault. -/
theorem applyOne_eq_error {barrier : Option StoreFault} {op : Operation} {refusal : Refusal}
    (h : t.applyOne barrier now op = .error refusal) :
    (∃ fault, refusal = .fault fault) ∨ op.unfit? = some refusal := by
  cases op with
  | upsert record =>
    cases hFit : record.firstUnbound? with
    | some other => exact .inr (by simpa [applyOne, Operation.unfit?, hFit] using h)
    | none =>
      cases barrier with
      | some fault => exact .inl ⟨fault, by simpa [applyOne, hFit, eq_comm] using h⟩
      | none =>
        cases hMissing : firstMissing? record.cells with
        | some column =>
          exact .inl ⟨.missingValue column, by simpa [applyOne, hFit, hMissing, eq_comm] using h⟩
        | none => simp [applyOne, hFit, hMissing] at h
  | delete id =>
    cases hFits : fitsWord id with
    | false => exact .inr (by simpa [applyOne, Operation.unfit?, hFits] using h)
    | true =>
      cases barrier with
      | some fault => exact .inl ⟨fault, by simpa [applyOne, hFits, eq_comm] using h⟩
      | none => simp [applyOne, hFits] at h
  | unknown v => exact .inr (by simpa [applyOne, Operation.unfit?] using h)

theorem applyAll_eq_error {barrier : Option StoreFault} {ops : List Operation} {refusal : Refusal}
    (h : t.applyAll barrier now ops = .error refusal) :
    (∃ fault, refusal = .fault fault) ∨ ∃ op ∈ ops, op.unfit? = some refusal := by
  induction ops generalizing t with
  | nil => cases h
  | cons op ops ih =>
    rw [applyAll] at h
    split at h
    · next other hOne =>
      obtain rfl := Except.error.inj h
      exact (applyOne_eq_error hOne).imp id fun hUnfit => ⟨op, List.mem_cons_self, hUnfit⟩
    · next between result hOne =>
      split at h
      · next other hRest =>
        obtain rfl := Except.error.inj h
        refine (ih hRest).imp id ?_
        rintro ⟨unfit, hMem, hUnfit⟩
        exact ⟨unfit, List.mem_cons_of_mem op hMem, hUnfit⟩
      · cases h

end Table

/-- Where the table is missing, a value that cannot be given may be met before that is. -/
theorem Memory.refuse_eq (m : Memory) (locked : Bool) (missing : StoreFault) (op : Operation) :
    (∃ fault, (m.refuse locked missing op).1 = .fault fault) ∨
      op.unfit? = some (m.refuse locked missing op).1 := by
  unfold Memory.refuse
  split
  · exact .inl ⟨missing, rfl⟩
  · next hUnfit _ => exact .inr hUnfit
  · exact .inl ⟨missing, rfl⟩
  · split
    · exact .inl ⟨.locked, rfl⟩
    · exact .inl ⟨missing, rfl⟩

namespace Store

section

variable {s : Store} {ops : List Operation} {refusal : Refusal}

theorem refuse_eq_error {absent : Bool} (h : s.refuse absent ops = .error refusal) :
    (∃ fault, refusal = .fault fault) ∨ ∃ op ∈ ops, op.unfit? = some refusal := by
  unfold refuse at h
  split at h
  · cases h
  · next v ops =>
    rw [← Except.error.inj h]
    exact .inr ⟨.unknown v, List.mem_cons_self, rfl⟩
  · next op ops _ =>
    rw [← Except.error.inj h]
    exact (s.memory.refuse_eq s.locked (statingFault absent op) op).imp id
      fun hUnfit => ⟨op, List.mem_cons_self, hUnfit⟩

theorem batch_eq_error (h : s.batch ops = .error refusal) :
    (∃ fault, refusal = .fault fault) ∨ ∃ op ∈ ops, op.unfit? = some refusal := by
  unfold batch at h
  split at h
  · exact .inl ⟨_, (Except.error.inj h).symm⟩
  · split at h
    · exact .inl ⟨_, (Except.error.inj h).symm⟩
    · split at h
      · exact refuse_eq_error (eq_error_of_map h)
      · exact refuse_eq_error (eq_error_of_map h)
      · exact Table.applyAll_eq_error (eq_error_of_map h)

/-- A batch fails as such, or one of its operations has a value that cannot be given. -/
theorem submit_eq_error {failure : Failure} (h : (s.submit ops).1 = .error failure) :
    (∃ size fault, failure = .batch size fault) ∨
      ∃ op ∈ ops, ∃ refusal, op.unfit? = some refusal ∧ failure = refusal.failure ops.length := by
  cases hBatch : s.batch ops with
  | ok done => simp [submit, hBatch] at h
  | error refusal =>
    have hFailure : failure = refusal.failure ops.length := by
      simpa [submit, hBatch, eq_comm] using h
    rcases batch_eq_error hBatch with ⟨fault, rfl⟩ | ⟨op, hOp, hUnfit⟩
    · exact .inl ⟨ops.length, fault, hFailure⟩
    · exact .inr ⟨op, hOp, refusal, hUnfit, hFailure⟩

end

/-- The store answers every query. -/
structure Answers (s : Store) : Prop where
  isOpen : s.isOpen = true
  isTable : s.contents.isTable = true
  queries : s.failingQueries = []

/-- Nothing keeps the store from applying a batch. -/
structure Healthy (s : Store) : Prop extends s.Answers where
  unlocked : s.locked = false
  batches : s.failingBatches = []

variable {s : Store}

theorem Answers.exists_table (h : s.Answers) : ∃ t, s.contents = .table t := by
  have hTable := h.isTable
  unfold Contents.isTable at hTable
  split at hTable
  · next t hContents => exact ⟨t, hContents⟩
  · cases hTable

theorem Answers.query (h : s.Answers) {α : Type} (column : String) (ask : Table → α) :
    (∃ answer, (s.query column ask).1 = .ok answer) ∧ (s.query column ask).2.Answers := by
  obtain ⟨t, hContents⟩ := h.exists_table
  refine ⟨⟨ask t, ?_⟩, h.isOpen, h.isTable, ?_⟩
  · simp [Store.query, Store.readable, h.queries, h.isOpen, hContents, Except.map]
  · simp [Store.query, h.queries, countDown]

theorem Healthy.query (h : s.Healthy) {α : Type} (column : String) (ask : Table → α) :
    (s.query column ask).2.Healthy :=
  ⟨(h.toAnswers.query column ask).2, h.unlocked, h.batches⟩

theorem Answers.submit (h : s.Answers) (ops : List Operation) : (s.submit ops).2.Answers := by
  obtain ⟨t, hContents⟩ := h.exists_table
  unfold Store.submit
  cases hBatch : s.batch ops with
  | error refusal => exact ⟨h.isOpen, h.isTable, h.queries⟩
  | ok done =>
    obtain ⟨after, hAfter, -⟩ := Reconcile.batch_eq_ok hContents hBatch
    obtain ⟨contents, ids⟩ := done
    obtain rfl : contents = .table after := hAfter
    exact ⟨h.isOpen, rfl, h.queries⟩

theorem Healthy.submit (h : s.Healthy) (ops : List Operation) : (s.submit ops).2.Healthy := by
  refine ⟨h.toAnswers.submit ops, ?_, ?_⟩
  · unfold Store.submit
    cases s.batch ops <;> exact h.unlocked
  · unfold Store.submit
    cases s.batch ops <;> simp [h.batches, countDown]

theorem Answers.fits_of_submit (h : s.Answers) {ops : List Operation} {ids : List (Option Int)}
    (hReply : (s.submit ops).1 = .ok ids) : ∀ op ∈ ops, op.unfit? = none := by
  obtain ⟨t, hContents⟩ := h.exists_table
  rcases Reconcile.submit_cases hContents ops with
    ⟨found, after, barrier, clock, -, hAll, -⟩ | ⟨failure, hError, -⟩
  · exact Table.unfit?_eq_none_of_applyAll hAll
  · rw [hError] at hReply
    cases hReply

theorem Healthy.submit_eq_ok (h : s.Healthy) {ops : List Operation}
    (hFit : ∀ op ∈ ops, op.IsFit) : ∃ ids, (s.submit ops).1 = .ok ids := by
  obtain ⟨t, hContents⟩ := h.exists_table
  obtain ⟨done, hAll⟩ : ∃ done, t.applyAll none (isoText s.clock) ops = .ok done :=
    Table.applyAll_of_isFit hFit
  have hBarrier : s.barrier = none := by simp [Store.barrier, h.unlocked]
  have hBatch : s.batch ops = .ok (.table done.1, done.2) := by
    simp [Store.batch, hContents, h.batches, h.isOpen, hBarrier, hAll, Except.map]
  exact ⟨done.2, by simp [Store.submit, hBatch]⟩

end Store

end MediaIndex.Catalog

namespace MediaIndex.Reconcile

open Catalog (Store)

variable {s s' : Store} {call : Call}

namespace Call.Made

/-- A store that answers goes on to do so. It applies a batch only if all its values can be given,
and then it does not refuse it. -/
theorem answers (hMade : Made s call s') (h : s.Answers) : s'.Answers ∧
    call.isUnanswered = false ∧ (call.isApplied = true → ∀ op ∈ call.ops, op.unfit? = none) ∧
      ((∀ op ∈ call.ops, op.unfit? = none) → call.isRefused = false) := by
  cases hMade with
  | lookup volume path =>
    obtain ⟨⟨answer, hAnswer⟩, hNext⟩ := h.query "id" fun t => t.lookup volume path
    have hReply : (s.lookup volume path).1 = .ok answer := hAnswer
    rw [hReply]
    exact ⟨hNext, rfl, by simp [Call.isApplied], fun _ => rfl⟩
  | idsUnder volume root =>
    obtain ⟨⟨answer, hAnswer⟩, hNext⟩ := h.query "id" fun t => t.idsUnder volume root
    have hReply : (s.idsUnder volume root).1 = .ok answer := hAnswer
    rw [hReply]
    exact ⟨hNext, rfl, by simp [Call.isApplied], fun _ => rfl⟩
  | submit ops =>
    refine ⟨h.submit ops, ?_⟩
    cases hReply : (s.submit ops).1 with
    | ok ids => exact ⟨rfl, fun _ => h.fits_of_submit hReply, fun _ => rfl⟩
    | error failure =>
      refine ⟨rfl, by simp [Call.isApplied], ?_⟩
      intro hFit
      rcases Store.submit_eq_error hReply with ⟨size, fault, rfl⟩ | ⟨op, hOp, refusal, hUnfit, -⟩
      · rfl
      · rw [hFit op hOp] at hUnfit
        cases hUnfit

theorem healthy (hMade : Made s call s') (h : s.Healthy) : s'.Healthy ∧
    (call.isBatch = true → (∀ op ∈ call.ops, op.IsFit) → call.isApplied = true) := by
  cases hMade with
  | lookup volume path => exact ⟨h.query "id" fun t => t.lookup volume path, nofun⟩
  | idsUnder volume root => exact ⟨h.query "id" fun t => t.idsUnder volume root, nofun⟩
  | submit ops =>
    refine ⟨h.submit ops, fun _ hFit => ?_⟩
    have hOps : ∀ op ∈ ops, op.IsFit := hFit
    obtain ⟨ids, hReply⟩ := h.submit_eq_ok hOps
    rw [hReply]
    rfl

end Call.Made

namespace Dialogue

variable {α : Type}

theorem answers_run (d : Dialogue α) (h : s.Answers) : (d.run s).store.Answers ∧
    ∀ call ∈ d.calls s, call.isUnanswered = false ∧
      (call.isApplied = true → ∀ op ∈ call.ops, op.unfit? = none) ∧
      ((∀ op ∈ call.ops, op.unfit? = none) → call.isRefused = false) :=
  d.invariant_run Call.Made.answers h

theorem healthy_run (d : Dialogue α) (h : s.Healthy) : (d.run s).store.Healthy ∧
    ∀ call ∈ d.calls s, call.isBatch = true → (∀ op ∈ call.ops, op.IsFit) →
      call.isApplied = true :=
  d.invariant_run Call.Made.healthy h

end Dialogue

end MediaIndex.Reconcile
