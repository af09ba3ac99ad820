import MediaIndex.Proofs.Calls

/-!
# Faults of queries

Whether a store answers a query depends on how many queries came before and on nothing else: neither
on what they asked nor on what was submitted in between. So its faults are a schedule by position,
and every dialogue over the store meets it from the start.
-/

namespace MediaIndex.Catalog.Store

open Reconcile (submit_cases)

/-- The fault that keeps the store from answering the query of a position among those to come. -/
def queryFault? (s : Store) (position : Nat) : Option StoreFault :=
  if position ∈ s.failingQueries then some .ioError
  else if s.isOpen then none
  else some .closed

variable {s : Store} {now : Table}

theorem mem_countDown {positions : List Nat} {position : Nat} :
    position ∈ countDown positions ↔ position + 1 ∈ positions := by
  rw [countDown, List.mem_map]
  constructor
  · rintro ⟨later, hLater, rfl⟩
    obtain ⟨hMem, hPos⟩ := List.mem_filter.mp hLater
    rwa [Nat.sub_add_cancel (of_decide_eq_true hPos)]
  · intro hMem
    exact ⟨position + 1, List.mem_filter.mpr ⟨hMem, decide_eq_true (Nat.succ_pos position)⟩, rfl⟩

theorem queryFault?_query {α : Type} (column : String) (ask : Table → α) (position : Nat) :
    (s.query column ask).2.queryFault? position = s.queryFault? (position + 1) := by
  simp only [queryFault?, query]
  congr 1
  exact propext mem_countDown

theorem queryFault?_submit (ops : List Operation) (position : Nat) :
    (s.submit ops).2.queryFault? position = s.queryFault? position := by
  unfold submit
  cases s.batch ops <;> rfl

theorem query_eq (hs : s.contents = .table now) {α : Type} (column : String) (ask : Table → α) :
    (s.query column ask).1 = match s.queryFault? 0 with
      | some fault => .error fault
      | none => .ok (ask now) := by
  simp only [query, readable, queryFault?, hs]
  split
  · rfl
  · cases s.isOpen <;> rfl

theorem exists_table_of_submit (hs : s.contents = .table now) (ops : List Operation) :
    ∃ after, (s.submit ops).2.contents = .table after := by
  rcases submit_cases hs ops with ⟨-, after, -, -, -, -, hAfter⟩ | ⟨-, -, hAfter⟩
  · exact ⟨after, hAfter⟩
  · exact ⟨now, hAfter⟩

end MediaIndex.Catalog.Store

namespace MediaIndex.Reconcile

open Catalog (Store StoreFault Table)

namespace Call

/-- What kept the catalog from answering, if the call is a query. -/
def answer? : Call → Option (Option StoreFault)
  | lookup _ _ (.error fault) => some (some fault)
  | lookup _ _ (.ok _) => some none
  | idsUnder _ _ (.error fault) => some (some fault)
  | idsUnder _ _ (.ok _) => some none
  | submit _ _ => none

end Call

def queries (calls : List Call) : Nat := (calls.filterMap (·.answer?)).length

theorem queries_append (calls more : List Call) :
    queries (calls ++ more) = queries calls + queries more := by
  rw [queries, List.filterMap_append, List.length_append]
  rfl

/-- From a position on, the queries meet the faults of a schedule and no others. -/
def Meets (faults : Nat → Option StoreFault) : Nat → List Call → Prop
  | _, [] => True
  | position, call :: calls => match call.answer? with
    | some answer => answer = faults position ∧ Meets faults (position + 1) calls
    | none => Meets faults position calls

variable {faults : Nat → Option StoreFault} {position : Nat} {calls more : List Call}

theorem meets_of_answer {call : Call} {answer : Option StoreFault}
    (h : call.answer? = some answer) : Meets faults position (call :: calls) ↔
      answer = faults position ∧ Meets faults (position + 1) calls := by
  rw [Meets, h]

theorem meets_append : Meets faults position (calls ++ more) ↔
    Meets faults position calls ∧ Meets faults (position + queries calls) more := by
  induction calls generalizing position with
  | nil => simp [Meets, queries]
  | cons call calls ih =>
    cases hAnswer : call.answer? with
    | none => simp only [List.cons_append, Meets, queries, List.filterMap_cons, hAnswer, ih]
    | some answer =>
      simp only [List.cons_append, Meets, queries, List.filterMap_cons, hAnswer, ih, and_assoc,
        List.length_cons, Nat.add_right_comm position 1, Nat.add_assoc]

theorem meets_shift : Meets (fun later => faults (later + 1)) position calls ↔
    Meets faults (position + 1) calls := by
  induction calls generalizing position with
  | nil => exact Iff.rfl
  | cons call calls ih =>
    cases hAnswer : call.answer? <;> simp only [Meets, hAnswer, ih]

section

variable {s : Store} {now : Table} (hs : s.contents = .table now)

include hs

theorem answer?_lookup (volume : String) (path : Path) :
    (Call.lookup volume path (s.lookup volume path).1).answer? = some (s.queryFault? 0) := by
  rw [Store.lookup, Store.query_eq hs]
  cases s.queryFault? 0 <;> rfl

theorem answer?_idsUnder (volume : String) (root : Path) :
    (Call.idsUnder volume root (s.idsUnder volume root).1).answer? = some (s.queryFault? 0) := by
  rw [Store.idsUnder, Store.query_eq hs]
  cases s.queryFault? 0 <;> rfl

end

/-- Every dialogue meets the faults of its store. -/
theorem meets_calls {α : Type} (d : Dialogue α) {s : Store} {now : Table}
    (hs : s.contents = .table now) : Meets s.queryFault? 0 (d.calls s) := by
  induction d generalizing s now with
  | finish a => trivial
  | tell note next ih => exact ih hs
  | lookup volume path next ih =>
    rw [Dialogue.calls_lookup, meets_of_answer (answer?_lookup hs volume path), ← meets_shift]
    exact ⟨rfl, funext (Store.queryFault?_query (s := s) "id" _) ▸
      ih (s.lookup volume path).1 (s := (s.lookup volume path).2) hs⟩
  | idsUnder volume root next ih =>
    rw [Dialogue.calls_idsUnder, meets_of_answer (answer?_idsUnder hs volume root), ← meets_shift]
    exact ⟨rfl, funext (Store.queryFault?_query (s := s) "id" _) ▸
      ih (s.idsUnder volume root).1 (s := (s.idsUnder volume root).2) hs⟩
  | submit ops next ih =>
    obtain ⟨after, hAfter⟩ := Store.exists_table_of_submit hs ops
    have hRest := ih (s.submit ops).1 hAfter
    rwa [funext (Store.queryFault?_submit ops)] at hRest

end MediaIndex.Reconcile
