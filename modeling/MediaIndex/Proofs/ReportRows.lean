import Mathlib.Algebra.Ring.Nat
import Mathlib.Data.List.Perm.Basic
import MediaIndex.Proofs.RangeQueries
import MediaIndex.Proofs.StoreHealth
import MediaIndex.Report.Inventory

/-!
# Rows of a report

A report asks for the rows under one root after the other and lists what each query finds. So every
record is listed once for each of the roots that it lies at or below: each once where no record has
two of them above it, and more often where roots overlap or come twice. The count is that of the
listed rows.
-/

namespace MediaIndex.Report

open Catalog (Row Store Table cellsAt siblingTable)
open Disk (Fault Tree)

/-- The rows at or below one of the roots or more, each once. The query goes by the texts of paths;
that this comes to their names is `Table.isUnder_iff_isWithin`. -/
def rowsBelow (table : Table) (roots : List Path) : List Row :=
  table.rows.filter fun r => roots.any fun root => Table.isUnder root r

/-- How many of the roots the row lies at or below, as the query goes by it. -/
def rootsAbove (roots : List Path) (r : Row) : Nat :=
  roots.countP fun root => Table.isUnder root r

variable {t : Tree} {table : Table} {roots : List Path} {r : Row}

theorem mem_rowsBelow :
    r ∈ rowsBelow table roots ↔ r ∈ table.rows ∧ ∃ root ∈ roots, Table.isUnder root r = true := by
  rw [rowsBelow, List.mem_filter, List.any_eq_true]

theorem mem_flatMap_rowsUnder :
    r ∈ roots.flatMap table.rowsUnder ↔ r ∈ rowsBelow table roots := by
  simp only [List.mem_flatMap, Table.mem_rowsUnder, mem_rowsBelow]
  constructor
  · rintro ⟨root, hRoot, hr, hUnder⟩
    exact ⟨hr, root, hRoot, hUnder⟩
  · rintro ⟨hr, root, hRoot, hUnder⟩
    exact ⟨root, hRoot, hr, hUnder⟩

/-! ## How often a row is listed -/

theorem rootsAbove_cons (root : Path) : rootsAbove (root :: roots) r =
    (if Table.isUnder root r then 1 else 0) + rootsAbove roots r := by
  rw [rootsAbove, List.countP_cons, Nat.add_comm]
  rfl

theorem rootsAbove_pos_iff :
    0 < rootsAbove roots r ↔ (roots.any fun root => Table.isUnder root r) = true := by
  rw [rootsAbove, List.countP_pos_iff, List.any_eq_true]

/-- To keep the rows that fit is to take each of them once and the others not at all. -/
theorem filter_eq_flatMap_replicate {rows : List Row} {fits : Row → Bool} {times : Row → Nat}
    (h : ∀ r ∈ rows, times r = if fits r then 1 else 0) :
    rows.filter fits = rows.flatMap fun r => List.replicate (times r) r := by
  induction rows with
  | nil => rfl
  | cons r rows ih =>
    rw [List.forall_mem_cons] at h
    rw [List.flatMap_cons, ← ih h.2, h.1]
    cases hFits : fits r with
    | true => simp [hFits]
    | false => simp [hFits]

/-- What the queries find is every row, as often as there are roots above it. -/
theorem flatMap_rowsUnder_perm (table : Table) (roots : List Path) :
    (roots.flatMap table.rowsUnder).Perm
      (table.rows.flatMap fun r => List.replicate (rootsAbove roots r) r) := by
  induction roots with
  | nil => simp [rootsAbove]
  | cons root roots ih =>
    have hRoot : (table.rowsUnder root).Perm (table.rows.flatMap fun r =>
        List.replicate (if Table.isUnder root r then 1 else 0) r) :=
      (List.mergeSort_perm _ _).trans
        (List.Perm.of_eq (filter_eq_flatMap_replicate fun r _ => rfl))
    rw [List.flatMap_cons]
    refine ((hRoot.append ih).trans (List.flatMap_append_perm _ _ _)).trans (List.Perm.of_eq ?_)
    refine List.flatMap_congr fun r _ => ?_
    rw [List.replicate_append_replicate, rootsAbove_cons]

theorem rowsBelow_eq (h : ∀ r ∈ table.rows, rootsAbove roots r ≤ 1) :
    rowsBelow table roots =
      table.rows.flatMap fun r => List.replicate (rootsAbove roots r) r := by
  refine filter_eq_flatMap_replicate fun r hr => ?_
  have hAtMost := h r hr
  have hSome : 0 < rootsAbove roots r ↔ _ := rootsAbove_pos_iff
  split
  · next hAny =>
    have := hSome.mpr hAny
    omega
  · next hNone =>
    have := mt hSome.mp hNone
    omega

/-- Rows that are counted once for each root above them come to as many as there are rows below the
roots only if none is counted twice. -/
theorem sum_rootsAbove_eq_iff (rows : List Row) :
    (rows.map (rootsAbove roots)).sum =
        (rows.filter fun r => roots.any fun root => Table.isUnder root r).length ↔
      ∀ r ∈ rows, rootsAbove roots r ≤ 1 := by
  suffices h : (rows.filter fun r => roots.any fun root => Table.isUnder root r).length ≤
        (rows.map (rootsAbove roots)).sum ∧
      ((rows.map (rootsAbove roots)).sum =
          (rows.filter fun r => roots.any fun root => Table.isUnder root r).length ↔
        ∀ r ∈ rows, rootsAbove roots r ≤ 1) from h.2
  induction rows with
  | nil => simp
  | cons r rows ih =>
    rw [List.map_cons, List.sum_cons, List.forall_mem_cons, ← ih.2]
    have hLe := ih.1
    have hSome : 0 < rootsAbove roots r ↔ _ := rootsAbove_pos_iff
    rw [List.filter_cons]
    split
    · next hAny =>
      have := hSome.mpr hAny
      rw [List.length_cons]
      omega
    · next hNone =>
      have := mt hSome.mp hNone
      omega

theorem flatMap_rowsUnder_perm_iff :
    (roots.flatMap table.rowsUnder).Perm (rowsBelow table roots) ↔
      ∀ r ∈ table.rows, rootsAbove roots r ≤ 1 := by
  constructor
  · intro h
    rw [← sum_rootsAbove_eq_iff]
    have hLength := (flatMap_rowsUnder_perm table roots).length_eq
    rw [h.length_eq, List.length_flatMap] at hLength
    simpa [rowsBelow] using hLength.symm
  · intro h
    exact (flatMap_rowsUnder_perm table roots).trans (List.Perm.of_eq (rowsBelow_eq h).symm)

theorem length_flatMap_rowsUnder_eq_iff :
    (roots.flatMap table.rowsUnder).length = (rowsBelow table roots).length ↔
      ∀ r ∈ table.rows, rootsAbove roots r ≤ 1 := by
  rw [← sum_rootsAbove_eq_iff, (flatMap_rowsUnder_perm table roots).length_eq, List.length_flatMap,
    rowsBelow]
  simp only [List.length_replicate]

/-! ## What is written -/

theorem status_of_unseen {reason : Disk.Reason} {text : String}
    (hZero : (Path.ofText (cellText (r.cells .path))).hasZero = false)
    (hStat : t.stat (Path.ofText (cellText (r.cells .path))) = .error (.failed reason text)) :
    Report.status t r = .ok .missing := by
  simp only [Report.status, hZero, Bool.false_eq_true, if_false, hStat]

theorem addRows_eq {status : Row → Status} {rows : List Row}
    (h : ∀ r ∈ rows, Report.status t r = .ok (status r)) (text : String) (count : Nat) :
    Inventory.addRows t ⟨text, count, none⟩ rows =
      ⟨text ++ String.join (rows.map fun r => csvRow (fields r (status r))), count + rows.length,
        none⟩ := by
  induction rows generalizing text count with
  | nil => simp [Inventory.addRows, String.join]
  | cons r rows ih =>
    rw [List.forall_mem_cons] at h
    simp only [Inventory.addRows, h.1]
    rw [ih h.2, List.map_cons, String.join_cons, String.append_assoc, List.length_cons]
    congr 1
    omega

theorem addRows_failed {rows : List Row}
    (h : ∃ r ∈ rows, ∃ failure, Report.status t r = .error failure) (inventory : Inventory) :
    (inventory.addRows t rows).failure.isSome = true := by
  induction rows generalizing inventory with
  | nil => simp at h
  | cons r rows ih =>
    rw [List.exists_mem_cons_iff] at h
    cases hStatus : Report.status t r with
    | error failure => simp only [Inventory.addRows, hStatus, Option.isSome_some]
    | ok status =>
      simp only [Inventory.addRows, hStatus]
      refine ih (h.resolve_left ?_) _
      rintro ⟨failure, hFailure⟩
      cases hStatus.symm.trans hFailure

theorem exists_statuses {rows : List Row}
    (h : ¬∃ r ∈ rows, ∃ failure, Report.status t r = .error failure) :
    ∃ status : Row → Status, ∀ r ∈ rows, Report.status t r = .ok (status r) := by
  have hOk : ∀ r, r ∈ rows → ∃ status, Report.status t r = .ok status := by
    intro r hr
    cases hStatus : Report.status t r with
    | ok status => exact ⟨status, rfl⟩
    | error failure => exact absurd ⟨r, hr, failure, hStatus⟩ h
  have : Nonempty Status := ⟨.present⟩
  choose! status hStatus using hOk
  exact ⟨status, hStatus⟩

section

variable {s : Store} (hs : s.contents = .table table) (hAnswers : s.Answers)

include hs hAnswers

theorem rowsUnder_of_answers (root : Path) : ∃ later,
    s.rowsUnder root = (.ok (table.rowsUnder root), later) ∧ later.contents = .table table ∧
      later.Answers := by
  refine ⟨(s.rowsUnder root).2, ?_, hs, (hAnswers.query "id" fun t => t.rowsUnder root).2⟩
  simp [Store.rowsUnder, Store.query, Store.readable, hAnswers.queries, hAnswers.isOpen, hs,
    Except.map]

theorem addRoots_eq {status : Row → Status}
    (h : ∀ r ∈ roots.flatMap table.rowsUnder, Report.status t r = .ok (status r)) (text : String)
    (count : Nat) : (Inventory.addRoots t ⟨text, count, none⟩ s roots).1 =
      ⟨text ++ String.join ((roots.flatMap table.rowsUnder).map fun r =>
        csvRow (fields r (status r))), count + (roots.flatMap table.rowsUnder).length, none⟩ := by
  induction roots generalizing s text count with
  | nil => simp [Inventory.addRoots, String.join]
  | cons root roots ih =>
    rw [List.flatMap_cons, List.forall_mem_append] at h
    obtain ⟨later, hQuery, hLater, hLaterAnswers⟩ := rowsUnder_of_answers hs hAnswers root
    simp only [Inventory.addRoots, hQuery, addRows_eq h.1, Option.isSome_none, Bool.false_eq_true,
      if_false]
    rw [ih hLater hLaterAnswers h.2, List.flatMap_cons, List.map_append, String.join_append,
      String.append_assoc, List.length_append, Nat.add_assoc]

theorem addRoots_failed
    (h : ∃ r ∈ roots.flatMap table.rowsUnder, ∃ failure, Report.status t r = .error failure)
    (text : String) (count : Nat) :
    (Inventory.addRoots t ⟨text, count, none⟩ s roots).1.failure.isSome = true := by
  induction roots generalizing s text count with
  | nil => simp at h
  | cons root roots ih =>
    obtain ⟨later, hQuery, hLater, hLaterAnswers⟩ := rowsUnder_of_answers hs hAnswers root
    simp only [Inventory.addRoots, hQuery]
    by_cases hHere : ∃ r ∈ table.rowsUnder root, ∃ failure, Report.status t r = .error failure
    · simp only [addRows_failed hHere, if_true]
    · obtain ⟨status, hStatus⟩ := exists_statuses hHere
      simp only [addRows_eq hStatus, Option.isSome_none, Bool.false_eq_true, if_false]
      obtain ⟨r, hr, hFailure⟩ := h
      rw [List.flatMap_cons, List.mem_append] at hr
      refine ih hLater hLaterAnswers ⟨r, hr.resolve_left fun hr => ?_, hFailure⟩ _ _
      exact hHere ⟨r, hr, hFailure⟩

end

/-- A report on a catalog that answers fails exactly if it is interrupted at one of the records
below its roots, or meets one there with a zero character in its path. If it does not, it lists every
record as often as there are roots that it lies at or below, and counts what it lists; so each record
below the roots is listed once, and counted once, exactly if none lies below two of them. -/
theorem listed_once_iff {s : Store} (hs : s.contents = .table table) (hAnswers : s.Answers)
    (t : Tree) (roots : List Path) :
    ((inventory t s roots).1.failure = none ↔
      ∀ r ∈ rowsBelow table roots, ∃ status, Report.status t r = .ok status) ∧
    ((inventory t s roots).1.failure = none → ∃ (listed : List Row) (status : Row → Status),
      (∀ r ∈ listed, Report.status t r = .ok (status r)) ∧
      (inventory t s roots).1.text = csvRow headings ++
        String.join (listed.map fun r => csvRow (fields r (status r))) ∧
      (inventory t s roots).1.count = listed.length ∧
      listed.Perm (table.rows.flatMap fun r => List.replicate (rootsAbove roots r) r) ∧
      (listed.Perm (rowsBelow table roots) ↔ ∀ r ∈ table.rows, rootsAbove roots r ≤ 1) ∧
      ((inventory t s roots).1.count = (rowsBelow table roots).length ↔
        ∀ r ∈ table.rows, rootsAbove roots r ≤ 1)) := by
  by_cases hFails : ∃ r ∈ roots.flatMap table.rowsUnder, ∃ failure,
      Report.status t r = .error failure
  · have hFailed : (inventory t s roots).1.failure.isSome = true :=
      addRoots_failed hs hAnswers hFails (csvRow headings) 0
    have hNone : ¬ (inventory t s roots).1.failure = none := Option.isSome_iff_ne_none.mp hFailed
    obtain ⟨r, hr, failure, hError⟩ := hFails
    simp only [hNone, false_iff, false_imp_iff, and_true]
    intro hAll
    obtain ⟨status, hStatus⟩ := hAll r (mem_flatMap_rowsUnder.mp hr)
    cases hStatus.symm.trans hError
  · obtain ⟨status, hStatus⟩ := exists_statuses hFails
    have hWritten : (inventory t s roots).1 = ⟨csvRow headings ++
        String.join ((roots.flatMap table.rowsUnder).map fun r => csvRow (fields r (status r))),
        0 + (roots.flatMap table.rowsUnder).length, none⟩ :=
      addRoots_eq hs hAnswers hStatus (csvRow headings) 0
    rw [Nat.zero_add] at hWritten
    rw [hWritten]
    refine ⟨?_, fun _ => ⟨roots.flatMap table.rowsUnder, status, hStatus, rfl, rfl,
      flatMap_rowsUnder_perm table roots, flatMap_rowsUnder_perm_iff,
      length_flatMap_rowsUnder_eq_iff⟩⟩
    exact iff_of_true rfl fun r hr => ⟨status r, hStatus r (mem_flatMap_rowsUnder.mpr hr)⟩

theorem stat_empty {p : Path} {name : String} {names : List String} (hNames : p.names = name :: names)
    (hUp : name ≠ "..") : Disk.Tree.empty.stat p = .error (.failed .notFound p.text) := by
  have hEnter : Disk.Tree.empty.enter [] name = .error (.reason .notFound) := by
    simp [Disk.Tree.enter, Disk.Tree.node?, Disk.Tree.empty, Disk.Node.plain,
      Disk.Node.isDirectory, hUp]
  rw [Disk.Tree.stat, Disk.Tree.locate, Disk.Tree.place?, hNames, Disk.Tree.follow, hEnter]
  rfl

theorem status_of_empty (h : r ∈ siblingTable.rows) : Report.status .empty r = .ok .missing := by
  simp only [siblingTable, List.mem_cons, List.not_mem_nil, or_false] at h
  rcases h with rfl | rfl | rfl | rfl <;>
    exact status_of_unseen (by decide) (stat_empty rfl (by decide))

/-- Under a directory and under what lies in it, what lies there is listed twice. -/
theorem listed_once_iff_nested :
    let roots : List Path := [⟨.root, ["m"]⟩, ⟨.root, ["m", "b"]⟩]
    let report := (inventory .empty (.ofTable siblingTable 0) roots).1
    report.failure = none ∧ report.count ≠ (rowsBelow siblingTable roots).length := by
  intro roots report
  obtain ⟨hReturns, hListed⟩ :=
    listed_once_iff (s := .ofTable siblingTable 0) rfl ⟨rfl, rfl, rfl⟩ .empty roots
  have hNone : report.failure = none :=
    hReturns.mpr fun r hr => ⟨.missing, status_of_empty (mem_rowsBelow.mp hr).1⟩
  refine ⟨hNone, fun hCount => ?_⟩
  obtain ⟨listed, status, -, -, -, -, -, hOnce⟩ := hListed hNone
  have hTwice : rootsAbove roots ⟨2, cellsAt "/" "/m/b", ""⟩ = 2 := by decide
  have := hOnce.mp hCount ⟨2, cellsAt "/" "/m/b", ""⟩ (by simp [siblingTable])
  omega

end MediaIndex.Report
