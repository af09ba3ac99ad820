import MediaIndex.Proofs.BatchRows
import MediaIndex.Proofs.PassSteps
import MediaIndex.Proofs.WalkVisits

/-!
# The ledger of a walk

At every point of a walk, what was submitted and what still waits are the records due to the entries
visited so far, in order; the table has what the applied batches wrote and nothing else; and the
numbers that count as scanned are those of the rows that were kept or written. No step of the walk
looks at a path that an earlier one has written, so every entry stands as it did before the pass.
-/

namespace MediaIndex.Reconcile

open Catalog (Cell Operation Record Row Table)
open Disk (Attributes Tree)
open Walk (Event)

/-- The records that are written for some entries. -/
def dueRecords (t : Tree) (volume : String) (before : Table) (entries : List Attributes) :
    List Record :=
  entries.filterMap fun a => (standing t volume before a).record?

variable {t : Tree} {volume : String} {before now after : Table}

theorem record?_eq_some_iff {s : Standing} {record : Record} :
    s.record? = some record ↔ s = .taken record := by
  cases s <;> simp [Standing.record?]

theorem exists_taken_of_isSome {s : Standing} (h : s.record?.isSome = true) :
    ∃ record, s = .taken record := by
  obtain ⟨record, hRecord⟩ := Option.isSome_iff_exists.mp h
  exact ⟨record, record?_eq_some_iff.mp hRecord⟩

theorem kept?_eq_some_iff {s : Standing} {id : Int} :
    s.kept? = some id ↔ ∃ entry, s = .kept entry ∧ entry.id = id := by
  cases s <;> simp [Standing.kept?]

theorem mem_dueRecords {entries : List Attributes} {record : Record} :
    record ∈ dueRecords t volume before entries ↔
      ∃ a ∈ entries, standing t volume before a = .taken record := by
  simp [dueRecords, record?_eq_some_iff]

theorem dueRecords_append (entries more : List Attributes) :
    dueRecords t volume before (entries ++ more) =
      dueRecords t volume before entries ++ dueRecords t volume before more :=
  List.filterMap_append

theorem nodup_pathOf_dueRecords {entries : List Attributes}
    (h : (entries.map (·.path.text)).Nodup) :
    ((dueRecords t volume before entries).map Table.pathOf).Nodup := by
  induction entries with
  | nil => exact .nil
  | cons a entries ih =>
    rw [List.map_cons, List.nodup_cons] at h
    cases hStanding : standing t volume before a with
    | kept entry => simpa [dueRecords, hStanding, Standing.record?] using ih h.2
    | passed => simpa [dueRecords, hStanding, Standing.record?] using ih h.2
    | taken record =>
      have hDue : dueRecords t volume before (a :: entries) =
          record :: dueRecords t volume before entries := by
        simp [dueRecords, hStanding, Standing.record?]
      rw [hDue, List.map_cons, List.nodup_cons]
      refine ⟨?_, ih h.2⟩
      intro hMem
      obtain ⟨other, hOther, hPath⟩ := List.mem_map.mp hMem
      obtain ⟨b, hb, hTaken⟩ := mem_dueRecords.mp hOther
      rw [Table.pathOf, Table.pathOf, pathOf_of_taken hTaken, pathOf_of_taken hStanding,
        Cell.text.injEq] at hPath
      exact h.1 (hPath ▸ List.mem_map_of_mem hb)

/-- The entry can be taken in without an interrupt. -/
def IsRead (t : Tree) (volume : String) (a : Attributes) : Prop :=
  ∀ fault, Media.takeIn t false a volume ≠ .error fault

/-- What a walk has done so far, from the table before the pass: the entries it visited, the calls
it made, the queue, and the table now. -/
structure Walked (t : Tree) (volume : String) (before : Table) (done : List Attributes)
    (calls : List Call) (q : Queue) (now : Table) : Prop where
  distinct : (done.map (·.path.text)).Nodup
  queued : operations calls ++ q.pending = (dueRecords t volume before done).map .upsert
  writes : before.Writes (written calls) now
  storable : ∀ record ∈ written calls, Media.IsStorable record
  scanned : ∀ id, id ∈ q.scanned ↔
    (∃ a ∈ done, (standing t volume before a).kept? = some id) ∨
      ∃ record ∈ written calls, now.numberOf? record = some id
  failed : q.failed = (calls.filter (·.isLost)).length
  read : ∀ a ∈ done, standing t volume before a = .passed → IsRead t volume a

variable {done : List Attributes} {calls more : List Call} {q : Queue}

theorem Walked.split (h : Walked t volume before done calls q now) :
    ∃ submitted waiting, dueRecords t volume before done = submitted ++ waiting ∧
      q.pending = waiting.map .upsert ∧ (written calls).Sublist submitted := by
  obtain ⟨submitted, waiting, hDue, hSubmitted, hWaiting⟩ :=
    List.map_eq_append_iff.mp h.queued.symm
  refine ⟨submitted, waiting, hDue, hWaiting.symm, ?_⟩
  have hWritten := (applied_sublist calls).filterMap (·.record?)
  rw [← hSubmitted, filterMap_record?_upsert] at hWritten
  exact hWritten

theorem Walked.mem_dueRecords (h : Walked t volume before done calls q now) {record : Record}
    (hRecord : record ∈ written calls) : record ∈ dueRecords t volume before done := by
  obtain ⟨submitted, waiting, hDue, -, hWritten⟩ := h.split
  rw [hDue]
  exact List.mem_append_left waiting (hWritten.subset hRecord)

theorem Walked.rowOf?_eq (h : Walked t volume before done calls q now) {text : String}
    (hText : text ∉ done.map (·.path.text)) :
    now.rowOf? (.text text) = before.rowOf? (.text text) := by
  apply h.writes.others _
  intro record hRecord hPath
  obtain ⟨a, ha, hTaken⟩ := Reconcile.mem_dueRecords.mp (h.mem_dueRecords hRecord)
  rw [Table.pathOf, pathOf_of_taken hTaken, Cell.text.injEq] at hPath
  exact hText (hPath ▸ List.mem_map_of_mem ha)

/-- An entry that was not visited yet stands as it did before the pass. -/
theorem Walked.standing_eq (hBefore : before.Sound) (h : Walked t volume before done calls q now)
    {a : Attributes} (hFresh : a.path.text ∉ done.map (·.path.text)) :
    standing t volume now a = standing t volume before a :=
  standing_congr hBefore h.writes.sound (h.rowOf?_eq hFresh)

theorem numberOf?_congr {record : Record}
    (h : after.rowOf? (Table.pathOf record) = now.rowOf? (Table.pathOf record)) :
    after.numberOf? record = now.numberOf? record := by
  rw [Table.numberOf?, Table.numberOf?, h]

theorem Queue.Submits.writes {progress : Queue.Progress} (h : q.Submits now more progress after)
    (hNow : now.Sound) {waiting : List Record} (hWaiting : q.pending = waiting.map .upsert)
    (hDistinct : (waiting.map Table.pathOf).Nodup) :
    now.Writes (written more) after ∧ (written more).Sublist waiting ∧
      (∀ record ∈ written more, Media.IsStorable record) ∧
      ∀ id, id ∈ progress.queue.scanned ↔
        id ∈ q.scanned ∨ ∃ record ∈ written more, after.numberOf? record = some id := by
  cases h with
  | waits => exact ⟨hNow.writes_nil, List.nil_sublist waiting, by simp [written], by simp [written]⟩
  | lost hSome => exact ⟨hNow.writes_nil, List.nil_sublist waiting,
      by simp [written, Call.isApplied], by simp [written, Call.isApplied]⟩
  | refused hSome hOther => exact ⟨hNow.writes_nil, List.nil_sublist waiting,
      by simp [written, Call.isApplied], by simp [written, Call.isApplied]⟩
  | @applied ids after barrier clock hSome hApply =>
    have hMore : written [Call.submit q.pending (.ok ids)] = waiting := by
      rw [written, applied_cons, hWaiting]
      exact (congrArg (List.filterMap _) (List.append_nil _)).trans
        (filterMap_record?_upsert waiting)
    rw [hWaiting] at hApply
    obtain ⟨hWrites, rfl⟩ := hNow.writes_applyAll hDistinct hApply
    rw [hMore]
    refine ⟨hWrites, List.Sublist.refl waiting, ?_, ?_⟩
    · intro record hRecord
      exact Media.firstUnbound?_eq_none_iff.mp
        (Table.unfit?_eq_none_of_applyAll hApply _ (List.mem_map_of_mem hRecord))
    · intro id
      rw [(Queue.collect_spec _ _).2.2.2, List.mem_map]

theorem Walked.submits (h : Walked t volume before done calls q now) {progress : Queue.Progress}
    (hSubmits : q.Submits now more progress after) :
    Walked t volume before done (calls ++ more) progress.queue after := by
  obtain ⟨submitted, waiting, hDue, hWaiting, hWritten⟩ := h.split
  have hDistinct : ((dueRecords t volume before done).map Table.pathOf).Nodup :=
    nodup_pathOf_dueRecords h.distinct
  rw [hDue, List.map_append, List.nodup_append] at hDistinct
  obtain ⟨hWrites, hMore, hStorable, hScanned⟩ :=
    hSubmits.writes h.writes.sound hWaiting hDistinct.2.1
  -- What is written now touches no row of what was written before.
  have hDisjoint : ∀ record ∈ written calls, ∀ other ∈ written more,
      Table.pathOf record ≠ Table.pathOf other := by
    intro record hRecord other hOther
    exact hDistinct.2.2 _ (List.mem_map_of_mem (hWritten.subset hRecord)) _
      (List.mem_map_of_mem (hMore.subset hOther))
  have hNumber : ∀ record ∈ written calls, after.numberOf? record = now.numberOf? record := by
    intro record hRecord
    exact numberOf?_congr (hWrites.others _ fun other hOther hEq =>
      hDisjoint record hRecord other hOther hEq.symm)
  refine ⟨h.distinct, ?_, ?_, ?_, ?_, ?_, h.read⟩
  · rw [operations_append, List.append_assoc, hSubmits.operations_append, h.queued]
  · rw [written_append]
    exact h.writes.trans hWrites hDisjoint
  · intro record hRecord
    rw [written_append] at hRecord
    exact (List.mem_append.mp hRecord).elim (h.storable record) (hStorable record)
  · intro id
    rw [hScanned, h.scanned, written_append, or_assoc]
    apply or_congr Iff.rfl
    constructor
    · rintro (⟨record, hRecord, hId⟩ | ⟨record, hRecord, hId⟩)
      · exact ⟨record, List.mem_append_left _ hRecord, (hNumber record hRecord).trans hId⟩
      · exact ⟨record, List.mem_append_right _ hRecord, hId⟩
    · rintro ⟨record, hRecord, hId⟩
      rcases List.mem_append.mp hRecord with hRecord | hRecord
      · exact .inl ⟨record, hRecord, (hNumber record hRecord).symm.trans hId⟩
      · exact .inr ⟨record, hRecord, hId⟩
  · rw [hSubmits.failed_eq, h.failed, List.filter_append, List.length_append]

theorem Walked.asked (h : Walked t volume before done calls q now) {call : Call}
    (hCall : call.isBatch = false) : Walked t volume before done (calls ++ [call]) q now := by
  have hNone : applied [call] = [] ∧ operations [call] = [] ∧ [call].filter (·.isLost) = [] := by
    cases call with
    | submit ops reply => cases hCall
    | lookup volume path reply => exact ⟨rfl, rfl, rfl⟩
    | idsUnder volume root reply => exact ⟨rfl, rfl, rfl⟩
  have hWritten : written (calls ++ [call]) = written calls := by
    rw [written_append, written, written, hNone.1]
    exact List.append_nil _
  refine ⟨h.distinct, ?_, hWritten ▸ h.writes, hWritten ▸ h.storable, hWritten ▸ h.scanned, ?_,
    h.read⟩
  · rw [operations_append, hNone.2.1, List.append_nil]
    exact h.queued
  · rw [List.filter_append, hNone.2.2, List.append_nil]
    exact h.failed

theorem Walked.next (h : Walked t volume before done calls q now) {a : Attributes}
    (hFresh : a.path.text ∉ done.map (·.path.text)) {q' : Queue}
    (hPending : q'.pending = q.pending ++ (dueRecords t volume before [a]).map .upsert)
    (hScanned : ∀ id, id ∈ q'.scanned ↔
      id ∈ q.scanned ∨ (standing t volume before a).kept? = some id)
    (hFailed : q'.failed = q.failed)
    (hRead : standing t volume before a = .passed → IsRead t volume a) :
    Walked t volume before (done ++ [a]) calls q' now where
  distinct := by
    rw [List.map_append, List.nodup_append]
    refine ⟨h.distinct, by simp, ?_⟩
    intro text hText other hOther
    rw [List.map_singleton, List.mem_singleton] at hOther
    rw [hOther]
    exact fun hEq => hFresh (hEq ▸ hText)
  queued := by
    rw [hPending, ← List.append_assoc, h.queued, dueRecords_append, List.map_append]
  writes := h.writes
  storable := h.storable
  scanned id := by
    rw [hScanned, h.scanned, or_right_comm]
    refine or_congr ?_ Iff.rfl
    constructor
    · rintro (⟨b, hb, hKept⟩ | hKept)
      · exact ⟨b, List.mem_append_left [a] hb, hKept⟩
      · exact ⟨a, by simp, hKept⟩
    · rintro ⟨b, hb, hKept⟩
      rcases List.mem_append.mp hb with hb | hb
      · exact .inl ⟨b, hb, hKept⟩
      · exact .inr ((List.mem_singleton.mp hb) ▸ hKept)
  failed := hFailed.trans h.failed
  read b hb := by
    rcases List.mem_append.mp hb with hb | hb
    · exact h.read b hb
    · exact (List.mem_singleton.mp hb) ▸ hRead

/-- The ledger covers the first of the entries, and all of them unless the pass was stopped. -/
def Advances (t : Tree) (volume : String) (before : Table) (done entries : List Attributes)
    (calls : List Call) (progress : Pass.Progress) (now : Table) : Prop :=
  ∃ part, part <+: entries ∧
    Walked t volume before (done ++ part) calls progress.pass.queue now ∧
    (progress.failure = none → part = entries)

theorem Walked.advances {entries : List Attributes} {progress : Pass.Progress}
    (h : Walked t volume before (done ++ entries) calls progress.pass.queue now) :
    Advances t volume before done entries calls progress now :=
  ⟨entries, List.prefix_refl entries, h, fun _ => rfl⟩

theorem Walked.stops (h : Walked t volume before done calls q now) {entries : List Attributes}
    {p : Pass} (hQueue : p.queue = q) (failure : Failure) :
    Advances t volume before done entries calls ⟨p, some failure⟩ now := by
  refine ⟨[], List.nil_prefix, ?_, fun hGoing => by cases hGoing⟩
  rw [List.append_nil, hQueue]
  exact h

theorem Walked.visits (hBefore : before.Sound) {p : Pass}
    (h : Walked t p.volume before done calls p.queue now) {a : Attributes}
    (hFresh : a.path.text ∉ done.map (·.path.text)) {progress : Pass.Progress}
    (hVisits : Pass.Visits t a p now more progress after) :
    Advances t p.volume before done [a] (calls ++ more) progress after := by
  have hStanding := h.standing_eq hBefore hFresh
  have hAsked : Walked t p.volume before done
      (calls ++ [.lookup p.volume a.path (.ok (now.lookup p.volume a.path))]) p.queue now :=
    h.asked rfl
  cases hVisits with
  | @unanswered _ _ fault =>
    have hAsked : Walked t p.volume before done (calls ++ [.lookup p.volume a.path (.error fault)])
        p.queue now := h.asked rfl
    exact hAsked.stops rfl _
  | unreadable hPassed hFault => exact hAsked.stops rfl _
  | @kept _ _ entry hKept =>
    rw [hStanding] at hKept
    refine (hAsked.next hFresh ?_ ?_ ?_ (by simp [hKept])).advances
    · simp [dueRecords, hKept, Standing.record?, Pass.confirming, Pass.visiting, Queue.pending_mark]
    · intro id
      rw [hKept]
      simp only [Pass.confirming, Pass.visiting, Queue.mem_scanned_mark, Standing.kept?,
        Option.some.injEq, eq_comm]
    · exact Queue.failed_mark _ _
  | passed hPassed hRead =>
    rw [hStanding] at hPassed
    have hRead : IsRead t p.volume a := fun fault hFault =>
      hRead fault (Media.takeIn_eq_error_iff.mpr hFault)
    refine (hAsked.next hFresh ?_ ?_ rfl fun _ => hRead).advances
    · simp [dueRecords, hPassed, Standing.record?]
    · intro id
      simp [hPassed, Standing.kept?]
  | @taken _ _ _ rest _ record hTaken hEnqueues =>
    rw [hStanding] at hTaken
    have hNext : Walked t p.volume before (done ++ [a])
        (calls ++ [.lookup p.volume a.path (.ok (now.lookup p.volume a.path))])
        (p.queue.behind (.upsert record)) now := by
      refine hAsked.next hFresh ?_ ?_ rfl (by simp [hTaken])
      · simp [dueRecords, hTaken, Standing.record?, Queue.behind]
      · intro id
        simp [hTaken, Standing.kept?, Queue.behind]
    obtain ⟨queue, hSubmits, hQueue, -⟩ := hEnqueues.submits
    rw [List.append_cons calls]
    exact Walked.advances (hQueue ▸ hNext.submits hSubmits)

theorem Walked.observes (hBefore : before.Sound) {p : Pass}
    (h : Walked t p.volume before done calls p.queue now) {event : Event}
    (hFresh : ∀ a ∈ event.visited?, a.path.text ∉ done.map (·.path.text))
    {progress : Pass.Progress} (hObserves : Pass.Observes t event p now more progress after) :
    Advances t p.volume before done event.visited?.toList (calls ++ more) progress after := by
  rw [← List.append_nil done] at h
  cases hObserves with
  | visit hVisits => exact (List.append_nil done ▸ h).visits hBefore (hFresh _ rfl) hVisits
  | hidden => simpa [Event.visited?] using h.advances
  | interrupted => simpa [Event.visited?] using h.stops rfl _
  | failed hFault => simpa [Event.visited?] using h.advances
  | leave => simpa [Event.visited?] using h.advances

theorem visited_cons (event : Event) (events : List Event) :
    (event :: events).filterMap Event.visited? =
      event.visited?.toList ++ events.filterMap Event.visited? := by
  cases hEvent : event.visited? <;> simp [hEvent]

theorem not_mem_of_nodup_visited {event : Event} {events : List Event}
    (h : ((done ++ (event :: events).filterMap Event.visited?).map (·.path.text)).Nodup) :
    ∀ a ∈ event.visited?, a.path.text ∉ done.map (·.path.text) := by
  intro a ha hMem
  rw [visited_cons, ha, List.map_append, List.nodup_append] at h
  exact h.2.2 _ hMem _ (by simp) rfl

theorem Walked.observed (hBefore : before.Sound) {p : Pass}
    (h : Walked t p.volume before done calls p.queue now) {events : List Event}
    (hDistinct : ((done ++ events.filterMap Event.visited?).map (·.path.text)).Nodup)
    {progress : Pass.Progress} (hObserved : Pass.Observed t events p now more progress after) :
    Advances t p.volume before done (events.filterMap Event.visited?) (calls ++ more) progress
      after := by
  -- The ledger itself is the invariant: a report adds an entry whose path is in no entry before it.
  induction events generalizing done calls p now more with
  | nil =>
    cases hObserved
    apply Walked.advances
    rw [List.filterMap_nil, List.append_nil, List.append_nil]
    exact h
  | cons event events ih =>
    have hFresh := not_mem_of_nodup_visited hDistinct
    rw [visited_cons] at hDistinct ⊢
    cases hObserved with
    | stopped hFirst =>
      obtain ⟨part, hPart, hWalked, -⟩ := h.observes hBefore hFresh hFirst
      exact ⟨part, hPart.trans (List.prefix_append _ _), hWalked, fun hGoing => by cases hGoing⟩
    | going hFirst hRest =>
      obtain ⟨part, -, hWalked, hAll⟩ := h.observes hBefore hFresh hFirst
      obtain rfl := hAll rfl
      rw [← hFirst.continues.volume] at hWalked ⊢
      rw [← List.append_assoc] at hDistinct
      obtain ⟨more, hMore, hWalked, hAll⟩ := ih hWalked hDistinct hRest
      refine ⟨_ ++ more, (List.prefix_append_right_inj _).mpr hMore, ?_,
        fun hGoing => by rw [hAll hGoing]⟩
      rw [← List.append_assoc, ← List.append_assoc]
      exact hWalked

theorem walked_nil (hBefore : before.Sound) (volume : String) (size : Int) :
    Walked t volume before [] [] (.ofSize size) before where
  distinct := .nil
  queued := rfl
  writes := hBefore.writes_nil
  storable := by simp [written]
  scanned := by simp [written, Queue.ofSize]
  failed := rfl
  read := by simp

/-- A walk visits the first of its entries, and unless it is stopped all of them, and then it leaves
nothing waiting. -/
theorem advances_of_explores (hTree : t.WellFormed) (hBefore : before.Sound) {p : Pass} {size : Int}
    (hRoot : p.root.IsAbsolute) (hQueue : p.queue = .ofSize size) {progress : Pass.Progress}
    (h : Pass.Explores t p before calls progress after) :
    Advances t p.volume before [] (Walk.visits t p.root) calls progress after ∧
      (progress.failure = none → progress.pass.queue.pending = []) := by
  have hNil : Walked t p.volume before [] [] p.queue before := by
    rw [hQueue]
    exact walked_nil hBefore p.volume size
  have hDistinct := Walk.nodup_visits_texts hTree hRoot
  cases h with
  | stopped hFirst => exact ⟨hNil.observed hBefore hDistinct hFirst, fun hGoing => by cases hGoing⟩
  | going hFirst hFlushes =>
    obtain ⟨part, -, hWalked, hAll⟩ := hNil.observed hBefore hDistinct hFirst
    obtain rfl := hAll rfl
    obtain ⟨queue, hSubmits, hQueue, -, hEmpty⟩ := hFlushes.submits
    exact ⟨Walked.advances (hQueue ▸ hWalked.submits hSubmits), fun _ => hEmpty⟩

end MediaIndex.Reconcile
