import MediaIndex.Reconcile.Dialogue

/-!
# Calls of a dialogue

The calls that a dialogue makes to a store, with the answers it gets, are its trace; only a batch
that was applied changes the table. What a dialogue ensures is a property of its trace, of its
result and of the store after it, and it is told call by call.
-/

namespace MediaIndex.Reconcile

open Catalog (Contents Entry Operation Record Store StoreFault Table)

/-- A call as it was made, with the answer of the catalog. -/
inductive Call where
  | lookup (volume : String) (path : Path) (reply : Except StoreFault (Option Entry))
  | idsUnder (volume : String) (root : Path) (reply : Except StoreFault (List Int))
  | submit (ops : List Operation) (reply : Except Catalog.Failure (List (Option Int)))

namespace Call

def ops : Call → List Operation
  | submit ops _ => ops
  | _ => []

def isBatch : Call → Bool
  | submit _ _ => true
  | _ => false

def isApplied : Call → Bool
  | submit _ (.ok _) => true
  | _ => false

/-- The catalog could not apply the batch, which is set aside. -/
def isLost : Call → Bool
  | submit _ (.error (.batch _ _)) => true
  | _ => false

/-- The batch failed for a reason that goes on. -/
def isRefused : Call → Bool
  | submit _ (.error (.batch _ _)) => false
  | submit _ (.error _) => true
  | _ => false

def isUnanswered : Call → Bool
  | lookup _ _ (.error _) => true
  | idsUnder _ _ (.error _) => true
  | _ => false

/-- One call to a store, as the store answers it, and the store after it. -/
inductive Made (s : Store) : Call → Store → Prop
  | lookup (volume : String) (path : Path) :
      Made s (.lookup volume path (s.lookup volume path).1) (s.lookup volume path).2
  | idsUnder (volume : String) (root : Path) :
      Made s (.idsUnder volume root (s.idsUnder volume root).1) (s.idsUnder volume root).2
  | submit (ops : List Operation) : Made s (.submit ops (s.submit ops).1) (s.submit ops).2

end Call

def operations (calls : List Call) : List Operation := calls.flatMap (·.ops)

/-- The operations that took effect. -/
def applied (calls : List Call) : List Operation := operations (calls.filter (·.isApplied))

/-- Every batch among the calls is applied. -/
def NoneFails (calls : List Call) : Prop :=
  ∀ call ∈ calls, call.isBatch = true → call.isApplied = true

@[simp] theorem operations_nil : operations [] = [] := rfl

@[simp] theorem operations_append (calls more : List Call) :
    operations (calls ++ more) = operations calls ++ operations more :=
  List.flatMap_append

@[simp] theorem applied_nil : applied [] = [] := rfl

@[simp] theorem applied_append (calls more : List Call) :
    applied (calls ++ more) = applied calls ++ applied more := by
  simp [applied]

theorem applied_sublist (calls : List Call) : (applied calls).Sublist (operations calls) := by
  induction calls with
  | nil => exact List.Sublist.slnil
  | cons call calls ih =>
    rw [applied, List.filter_cons]
    split
    · exact (List.Sublist.refl call.ops).append ih
    · exact ih.trans (List.sublist_append_right call.ops _)

theorem mem_applied {calls : List Call} {op : Operation} :
    op ∈ applied calls ↔ ∃ call ∈ calls, call.isApplied = true ∧ op ∈ call.ops := by
  simp [applied, operations, and_assoc]

@[simp] theorem applied_cons (call : Call) (calls : List Call) :
    applied (call :: calls) = (if call.isApplied then call.ops else []) ++ applied calls := by
  rw [applied, applied, List.filter_cons]
  split <;> rfl

theorem applied_eq_operations {calls : List Call} (h : NoneFails calls) :
    applied calls = operations calls := by
  induction calls with
  | nil => rfl
  | cons call calls ih =>
    rw [applied_cons, ih fun other hOther => h other (List.mem_cons_of_mem call hOther)]
    cases call with
    | lookup volume path reply => rfl
    | idsUnder volume root reply => rfl
    | submit ops reply => rw [if_pos (h _ List.mem_cons_self rfl)]; rfl

theorem NoneFails.filter_isLost {calls : List Call} (h : NoneFails calls) :
    calls.filter (·.isLost) = [] := by
  refine List.filter_eq_nil_iff.mpr fun call hCall hIsLost => ?_
  cases call with
  | lookup volume path reply => cases hIsLost
  | idsUnder volume root reply => cases hIsLost
  | submit ops reply =>
    have hApplied := h _ hCall rfl
    cases reply with
    | ok ids => cases hIsLost
    | error failure => cases hApplied

end MediaIndex.Reconcile

namespace MediaIndex.Catalog.Operation

def record? : Operation → Option Record
  | upsert record => some record
  | _ => none

def id? : Operation → Option Int
  | delete id => some id
  | _ => none

end MediaIndex.Catalog.Operation

namespace MediaIndex.Reconcile

open Catalog (Contents Entry Operation Record Store StoreFault Table)

def written (calls : List Call) : List Record := (applied calls).filterMap (·.record?)

def erased (calls : List Call) : List Int := (applied calls).filterMap (·.id?)

@[simp] theorem written_append (calls more : List Call) :
    written (calls ++ more) = written calls ++ written more := by
  simp [written]

@[simp] theorem erased_append (calls more : List Call) :
    erased (calls ++ more) = erased calls ++ erased more := by
  simp [erased]

theorem filterMap_record?_upsert (records : List Record) :
    (records.map Operation.upsert).filterMap (·.record?) = records := by
  rw [List.filterMap_map]
  exact List.filterMap_some

theorem filterMap_id?_delete (ids : List Int) :
    (ids.map Operation.delete).filterMap (·.id?) = ids := by
  rw [List.filterMap_map]
  exact List.filterMap_some

theorem mem_written_iff {calls : List Call} {record : Record} :
    record ∈ written calls ↔ Operation.upsert record ∈ applied calls := by
  rw [written, List.mem_filterMap]
  constructor
  · rintro ⟨op, hOp, hRecord⟩
    cases op with
    | upsert found => exact Option.some.inj hRecord ▸ hOp
    | delete id => cases hRecord
    | unknown v => cases hRecord
  · intro hOp
    exact ⟨.upsert record, hOp, rfl⟩

theorem mem_erased_iff {calls : List Call} {id : Int} :
    id ∈ erased calls ↔ Operation.delete id ∈ applied calls := by
  rw [erased, List.mem_filterMap]
  constructor
  · rintro ⟨op, hOp, hId⟩
    cases op with
    | delete found => exact Option.some.inj hId ▸ hOp
    | upsert record => cases hId
    | unknown v => cases hId
  · intro hOp
    exact ⟨.delete id, hOp, rfl⟩

namespace Dialogue

variable {α β : Type}

def calls : Dialogue α → Store → List Call
  | finish _, _ => []
  | tell _ next, s => next.calls s
  | lookup volume path next, s =>
    let (reply, s) := s.lookup volume path
    .lookup volume path reply :: (next reply).calls s
  | idsUnder volume root next, s =>
    let (reply, s) := s.idsUnder volume root
    .idsUnder volume root reply :: (next reply).calls s
  | submit ops next, s =>
    let (reply, s) := s.submit ops
    .submit ops reply :: (next reply).calls s

theorem calls_lookup (volume : String) (path : Path)
    (next : Except StoreFault (Option Entry) → Dialogue α) (s : Store) :
    (lookup volume path next).calls s = .lookup volume path (s.lookup volume path).1 ::
      (next (s.lookup volume path).1).calls (s.lookup volume path).2 := rfl

theorem calls_idsUnder (volume : String) (root : Path)
    (next : Except StoreFault (List Int) → Dialogue α) (s : Store) :
    (idsUnder volume root next).calls s = .idsUnder volume root (s.idsUnder volume root).1 ::
      (next (s.idsUnder volume root).1).calls (s.idsUnder volume root).2 := rfl

theorem calls_submit (ops : List Operation)
    (next : Except Catalog.Failure (List (Option Int)) → Dialogue α) (s : Store) :
    (submit ops next).calls s = .submit ops (s.submit ops).1 ::
      (next (s.submit ops).1).calls (s.submit ops).2 := rfl

/-- What every call keeps of a store, and says where it is kept, a whole run keeps and says. -/
theorem invariant_run {Keeps : Store → Prop} {Says : Call → Prop}
    (hStep : ∀ {s call s'}, Call.Made s call s' → Keeps s → Keeps s' ∧ Says call)
    (d : Dialogue α) {s : Store} (h : Keeps s) :
    Keeps (d.run s).store ∧ ∀ call ∈ d.calls s, Says call := by
  -- A call is made, and the run goes on from the store after it.
  have hCons {call : Call} {s s' : Store} {next : Dialogue α} (hMade : Call.Made s call s')
      (hBefore : Keeps s)
      (hNext : Keeps s' → Keeps (next.run s').store ∧ ∀ call ∈ next.calls s', Says call) :
      Keeps (next.run s').store ∧ ∀ other ∈ call :: next.calls s', Says other := by
    obtain ⟨hAfter, hSays⟩ := hStep hMade hBefore
    obtain ⟨hEnd, hCalls⟩ := hNext hAfter
    exact ⟨hEnd, List.forall_mem_cons.mpr ⟨hSays, hCalls⟩⟩
  induction d generalizing s with
  | finish a => exact ⟨h, by simp [calls]⟩
  | tell note next ih => exact ih h
  | lookup volume path next ih => exact hCons (.lookup volume path) h (ih _)
  | idsUnder volume root next ih => exact hCons (.idsUnder volume root) h (ih _)
  | submit ops next ih => exact hCons (.submit ops) h (ih _)

/-- The calls, the result and the store that a dialogue comes to have a property. -/
def Ensures (d : Dialogue α) (s : Store) (post : List Call → α → Store → Prop) : Prop :=
  post (d.calls s) (d.run s).result (d.run s).store

variable {s : Store} {post : List Call → β → Store → Prop}

theorem Ensures.mono {d : Dialogue β} {weaker : List Call → β → Store → Prop}
    (h : d.Ensures s post) (hWeaker : ∀ calls b s', post calls b s' → weaker calls b s') :
    d.Ensures s weaker :=
  hWeaker _ _ _ h

theorem ensures_finish {b : β} : (finish b).Ensures s post ↔ post [] b s := Iff.rfl

theorem ensures_tell {note : Note} {next : Dialogue β} :
    (tell note next).Ensures s post ↔ next.Ensures s post := Iff.rfl

theorem ensures_tellAll {notes : List Note} {next : Dialogue β} :
    (tellAll notes next).Ensures s post ↔ next.Ensures s post := by
  induction notes with
  | nil => exact Iff.rfl
  | cons note notes ih => exact ih

theorem ensures_lookup {volume : String} {path : Path}
    {next : Except StoreFault (Option Catalog.Entry) → Dialogue β} :
    (lookup volume path next).Ensures s post ↔
      (next (s.lookup volume path).1).Ensures (s.lookup volume path).2 fun calls b s' =>
        post (.lookup volume path (s.lookup volume path).1 :: calls) b s' := Iff.rfl

theorem ensures_idsUnder {volume : String} {root : Path}
    {next : Except StoreFault (List Int) → Dialogue β} :
    (idsUnder volume root next).Ensures s post ↔
      (next (s.idsUnder volume root).1).Ensures (s.idsUnder volume root).2 fun calls b s' =>
        post (.idsUnder volume root (s.idsUnder volume root).1 :: calls) b s' := Iff.rfl

theorem ensures_submit {ops : List Operation}
    {next : Except Catalog.Failure (List (Option Int)) → Dialogue β} :
    (submit ops next).Ensures s post ↔ (next (s.submit ops).1).Ensures (s.submit ops).2
      fun calls b s' => post (.submit ops (s.submit ops).1 :: calls) b s' := Iff.rfl

theorem ensures_apply {ops : List Operation}
    {next : Except Catalog.Failure (List (Option Int)) → Dialogue β} :
    (apply ops next).Ensures s post ↔ (next (s.submit ops).1).Ensures (s.submit ops).2
      fun calls b s' => post (.submit ops (s.submit ops).1 :: calls) b s' := by
  rw [apply, ensures_submit]
  cases (s.submit ops).1 <;> exact Iff.rfl

theorem ensures_andThen {d : Dialogue α} {f : α → Dialogue β} :
    (d.andThen f).Ensures s post ↔ d.Ensures s fun calls a s' =>
      (f a).Ensures s' fun more b s'' => post (calls ++ more) b s'' := by
  induction d generalizing s post with
  | finish a => exact Iff.rfl
  | tell note next ih => exact ih
  | lookup volume path next ih =>
    rw [andThen, ensures_lookup, ensures_lookup]
    exact ih (s.lookup volume path).1
  | idsUnder volume root next ih =>
    rw [andThen, ensures_idsUnder, ensures_idsUnder]
    exact ih (s.idsUnder volume root).1
  | submit ops next ih =>
    rw [andThen, ensures_submit, ensures_submit]
    exact ih (s.submit ops).1

end Dialogue

/-! ## Calls to a table -/

variable {s : Store} {now : Table}

theorem query_eq_ok {α : Type} {column : String} {ask : Table → α} {answer : α}
    (hs : s.contents = .table now) (h : (s.query column ask).1 = .ok answer) :
    answer = ask now := by
  simp only [Store.query, Store.readable, hs] at h
  split at h
  · cases h
  · split at h
    · cases h
    · exact (Except.ok.inj h).symm

theorem batch_eq_ok {ops : List Operation} {contents : Contents} {ids : List (Option Int)}
    (hs : s.contents = .table now) (h : s.batch ops = .ok (contents, ids)) :
    ∃ after, contents = .table after ∧
      now.applyAll s.barrier (isoText s.clock) ops = .ok (after, ids) := by
  simp only [Store.batch, hs] at h
  split at h
  · cases h
  · split at h
    · cases h
    · cases hAll : now.applyAll s.barrier (isoText s.clock) ops with
      | error refusal => simp [hAll, Except.map] at h
      | ok done =>
        simp only [hAll, Except.map, Except.ok.injEq, Prod.mk.injEq] at h
        exact ⟨done.1, h.1.symm, by rw [← h.2]⟩

/-- A batch is applied to the table as a whole, or the table is as before. -/
theorem submit_cases (hs : s.contents = .table now) (ops : List Operation) :
    (∃ ids after barrier clock, (s.submit ops).1 = .ok ids ∧
      now.applyAll barrier clock ops = .ok (after, ids) ∧
      (s.submit ops).2.contents = .table after) ∨
    ∃ failure, (s.submit ops).1 = .error failure ∧ (s.submit ops).2.contents = .table now := by
  cases hBatch : s.batch ops with
  | error refusal => exact .inr ⟨refusal.failure ops.length, by simp [Store.submit, hBatch, hs]⟩
  | ok done =>
    obtain ⟨after, hAfter, hAll⟩ := batch_eq_ok hs hBatch
    exact .inl ⟨done.2, after, _, _, by simp [Store.submit, hBatch], hAll,
      by simp [Store.submit, hBatch, hAfter]⟩

end MediaIndex.Reconcile
