import MediaIndex.Proofs.CompletedPass
import MediaIndex.Proofs.StoreHealth

/-!
# Passes that return

A store that answers sees a pass to its end if the pass meets no interrupt and submits only values
that the table can take; a healthy store then applies every batch.
-/

namespace MediaIndex.Reconcile

open Catalog (Operation Record Row Store Table)
open Disk (Tree)
open Walk (Event)

variable {t : Tree} {p : Pass} {before middle after : Table} {walk sweep : List Call}

theorem Ran.operation_cases (h : Ran t p before middle after walk sweep) {op : Operation}
    (hOp : op ∈ operations (walk ++ sweep)) :
    (∃ record ∈ dueRecords t p.volume before (p.visited t), op = .upsert record) ∨
      ∃ r ∈ before.rows, op = .delete r.id := by
  rw [operations_append] at hOp
  rcases List.mem_append.mp hOp with hOp | hOp
  · exact .inl (h.upserts op hOp)
  · obtain ⟨r, hr, rfl, -, hNone⟩ := h.deletes op hOp
    exact .inr ⟨r, h.mem_before_of_unconfirmed hr hNone, rfl⟩

theorem isFit_of_due {record : Record} {entries : List Disk.Attributes} {volume : String}
    (hDue : record ∈ dueRecords t volume before entries) (hStorable : Media.IsStorable record) :
    (Operation.upsert record).IsFit := by
  obtain ⟨a, -, hTaken⟩ := mem_dueRecords.mp hDue
  refine ⟨Media.firstUnbound?_eq_none_iff.mpr hStorable, ?_⟩
  rintro _ ⟨⟩
  exact Media.firstMissing?_recordOf? (recordOf?_of_taken hTaken)

/-- What can be taken in for the entries can be stored, whatever the table has. -/
theorem storable_of_records {entries : List Disk.Attributes} {volume : String}
    (h : ∀ a ∈ entries, ∀ record, Media.recordOf? t a volume = some record →
      Media.IsStorable record) (now : Table) :
    ∀ record ∈ dueRecords t volume now entries, Media.IsStorable record := by
  intro record hRecord
  obtain ⟨a, ha, hTaken⟩ := mem_dueRecords.mp hRecord
  exact h a ha record (recordOf?_of_taken hTaken)

section

variable {s : Store} {path : Path} {told : Bool} {size : Int}

/-- A pass over a store that answers returns if it meets no interrupt and all that it takes in can
be stored. -/
theorem returns_of_answers (hTree : t.WellFormed) (hPath : path.IsProper) (hBefore : before.Sound)
    (hStart : Pass.start t path told size = .ok p) (hs : s.contents = .table before)
    (hAnswers : s.Answers) (hQuiet : p.IsQuiet t)
    (hDue : ∀ record ∈ dueRecords t p.volume before (p.visited t), Media.IsStorable record)
    (hRows : ∀ r ∈ before.rows, Catalog.fitsWord r.id = true) :
    ((p.run t).run s).result.failure = none := by
  obtain ⟨hNew, -⟩ := Pass.start_eq_ok hStart
  obtain ⟨after, -, hRuns⟩ := Pass.ensures_run (t := t) hs hNew.phase
  refine Classical.byContradiction fun hStopped => ?_
  obtain ⟨call, hCall, hFatal⟩ := hRuns.fatal hQuiet hStopped
  obtain ⟨hAnswered, -, hTaken⟩ := ((p.run t).answers_run hAnswers).2 call hCall
  obtain ⟨_, middle, walk, sweep, half, -, hCalls, hRan, -⟩ :=
    ran_of_run hTree hPath hBefore hStart hs
  rw [Call.isFatal, hAnswered, hTaken, Bool.or_false] at hFatal
  · cases hFatal
  · intro op hOp
    have hMem : op ∈ operations ((p.run t).calls s) := List.mem_flatMap.mpr ⟨call, hCall, hOp⟩
    rw [hCalls] at hMem
    rcases hRan.operation_cases hMem with ⟨record, hRecord, rfl⟩ | ⟨r, hr, rfl⟩
    · exact Media.firstUnbound?_eq_none_iff.mpr (hDue record hRecord)
    · simp [Operation.unfit?, hRows r hr]

/-- A healthy store applies every batch of a pass if all that the pass takes in can be stored. -/
theorem noneFails_of_healthy (hTree : t.WellFormed) (hPath : path.IsProper) (hBefore : before.Sound)
    (hStart : Pass.start t path told size = .ok p) (hs : s.contents = .table before)
    (hHealthy : s.Healthy)
    (hDue : ∀ record ∈ dueRecords t p.volume before (p.visited t), Media.IsStorable record)
    (hRows : ∀ r ∈ before.rows, Catalog.fitsWord r.id = true) :
    NoneFails ((p.run t).calls s) := by
  obtain ⟨_, middle, walk, sweep, half, -, hCalls, hRan, -⟩ :=
    ran_of_run hTree hPath hBefore hStart hs
  intro call hCall hBatch
  apply ((p.run t).healthy_run hHealthy).2 call hCall hBatch
  intro op hOp
  have hMem : op ∈ operations ((p.run t).calls s) := List.mem_flatMap.mpr ⟨call, hCall, hOp⟩
  rw [hCalls] at hMem
  rcases hRan.operation_cases hMem with ⟨record, hRecord, rfl⟩ | ⟨r, hr, rfl⟩
  · exact isFit_of_due hRecord (hDue record hRecord)
  · exact ⟨by simp [Operation.unfit?, hRows r hr], by simp⟩

/-- If the store is healthy no batch of such a pass is lost. -/
theorem failed_eq_zero_of_healthy (hTree : t.WellFormed) (hPath : path.IsProper)
    (hBefore : before.Sound) (hStart : Pass.start t path told size = .ok p)
    (hs : s.contents = .table before) (hHealthy : s.Healthy) (hQuiet : p.IsQuiet t)
    (hDue : ∀ record ∈ dueRecords t p.volume before (p.visited t), Media.IsStorable record)
    (hRows : ∀ r ∈ before.rows, Catalog.fitsWord r.id = true) :
    ((p.run t).run s).result.pass.queue.failed = 0 := by
  have hReturns := returns_of_answers hTree hPath hBefore hStart hs hHealthy.toAnswers hQuiet hDue
    hRows
  have hLost := (noneFails_of_healthy hTree hPath hBefore hStart hs hHealthy hDue
    hRows).filter_isLost
  obtain ⟨after, middle, walk, sweep, half, -, hCalls, h⟩ :=
    complete_of_run hTree hPath hBefore hStart hs hReturns
  rw [hCalls, List.filter_append] at hLost
  rw [h.swept.failed, h.walked.failed, ← List.length_append, hLost]
  rfl

end

/-! ## Walks that can be worked off -/

/-- Nothing in the report interrupts a pass, and what is taken in for it can be stored. -/
def isTame (t : Tree) (volume : String) : Event → Bool
  | .visit a => match Media.takeIn t false a volume with
    | .ok intake => intake.record.all fun record => record.firstUnbound?.isNone
    | .error _ => false
  | .failed _ fault => fault != .interrupted
  | _ => true

/-- What the walk of a pass reports, all of which can be worked off. -/
structure Pass.Reports (t : Tree) (p : Pass) (events : List Event) : Prop where
  visible : p.isHidden t = .ok false
  walk : Walk.walk t p.root = events
  tame : events.all (isTame t p.volume) = true

section

variable {events : List Event} (h : p.Reports t events)

include h

theorem Pass.Reports.visited : p.visited t = events.filterMap Event.visited? := by
  rw [Pass.visited, h.visible, Walk.visits, h.walk]

theorem Pass.Reports.quiet : p.IsQuiet t where
  hidden := ⟨false, h.visible⟩
  walk _ event hEvent hInterrupts := by
    rw [h.walk] at hEvent
    have hTame := List.all_eq_true.mp h.tame event hEvent
    cases event with
    | visit a =>
      obtain ⟨fault, hFault⟩ := hInterrupts
      simp [isTame, hFault] at hTame
    | failed path fault =>
      obtain rfl : fault = .interrupted := hInterrupts
      simp [isTame] at hTame
    | hidden path => exact hInterrupts
    | leave path => exact hInterrupts

theorem Pass.Reports.storable : ∀ a ∈ p.visited t, ∀ record,
    Media.recordOf? t a p.volume = some record → Media.IsStorable record := by
  intro a ha record hRecord
  rw [h.visited] at ha
  obtain ⟨event, hEvent, hVisited⟩ := List.mem_filterMap.mp ha
  have hTame := List.all_eq_true.mp h.tame event hEvent
  cases event with
  | visit b =>
    obtain rfl := Option.some.inj hVisited
    rw [Media.recordOf?] at hRecord
    rw [isTame] at hTame
    split at hTame
    · next intake hTake =>
      simp only [hTake] at hRecord
      rw [hRecord, Option.all_some] at hTame
      exact Media.firstUnbound?_eq_none_iff.mp (Option.isNone_iff_eq_none.mp hTame)
    · cases hTame
  | failed path fault => cases hVisited
  | hidden path => cases hVisited
  | leave path => cases hVisited

end

end MediaIndex.Reconcile
