import MediaIndex.Proofs.Concert
import MediaIndex.Proofs.Failures

/-!
# Stages of a pass in concert

What a pass knows between its calls, and goes on knowing whatever the others do. In its walk: every
entry that it has come to and that is not passed over is settled and counts as scanned, or its
record waits. In its sweep: what it deletes is stray, and every row of its own that is passed over
is still to be deleted. In the end all that it visits is settled, and of its own rows none is left
that is passed over.
-/

namespace MediaIndex.Reconcile.Concert

open Catalog (Cell Operation Record Row Store Table)
open Disk (Attributes Tree)
open Walk (Event)

/-- The path is settled, and its row counts as scanned. -/
structure Counts (k : Concert) (q : Queue) (m : Moment) (c : Cell) : Prop where
  row : ∃ r, k.Settled m.now c r ∧ r.id ∈ q.scanned
  call : ∃ call ∈ m.calls, k.Settles c call

/-- What a pass knows in its walk, of the entries it has come to. -/
structure Walking (k : Concert) (done : List Attributes) (q : Queue) (m : Moment) : Prop where
  since : k.Leads k.begin m
  waiting : ∀ op ∈ q.pending,
    ∃ record, op = .upsert record ∧ k.fate (record.cells .path) = .taken record
  scanned : ∀ id ∈ q.scanned, k.Confirms m.now id
  done : ∀ a ∈ done, k.fate (.text a.path.text) ≠ .passed →
    (∃ record, .upsert record ∈ q.pending ∧ record.cells .path = .text a.path.text) ∨
      k.Counts q m (.text a.path.text)

/-- What a pass knows in its sweep: the numbers that are left to look at are scanned or stray, and
they and those that wait are all that it has to delete. -/
structure Sweeping (k : Concert) (root : Path) (visited : List Attributes) (ids : List Int)
    (q : Queue) (m : Moment) : Prop where
  since : k.Leads k.begin m
  waiting : ∀ op ∈ q.pending, ∃ id, op = .delete id ∧ k.Stray m.now id
  scanned : ∀ id ∈ q.scanned, k.Confirms m.now id
  stray : ∀ id ∈ ids, id ∈ q.scanned ∨ k.Stray m.now id
  left : ∀ r ∈ m.now.rows, Table.IsOf k.volume root r → k.fate (r.cells .path) = .passed →
    r.id ∈ ids ∨ .delete r.id ∈ q.pending
  done : ∀ a ∈ visited, k.fate (.text a.path.text) ≠ .passed →
    ∃ call ∈ m.calls, k.Settles (.text a.path.text) call

/-- What a pass has brought about in the end. -/
structure Rests (k : Concert) (root : Path) (visited : List Attributes) (m : Moment) : Prop where
  since : k.Leads k.begin m
  swept : ∀ r ∈ m.now.rows, Table.IsOf k.volume root r → k.fate (r.cells .path) ≠ .passed
  done : ∀ a ∈ visited, k.fate (.text a.path.text) ≠ .passed →
    ∃ call ∈ m.calls, k.Settles (.text a.path.text) call

variable {k : Concert} {m m' : Moment} {q : Queue} {op : Operation} {root : Path}
  {done visited : List Attributes} {ids : List Int} {now after : Table} {r : Row} {c : Cell}

/-! ## What lasts -/

theorem Moves.mem_of_passed (h : k.Moves now after) (hAfter : after.Sound) (hr : r ∈ after.rows)
    (hFate : k.fate (r.cells .path) = .passed) : r ∈ now.rows := by
  have hMoved := h.rows (r.cells .path)
  rw [hAfter.rowOf?_of_mem hr, hFate] at hMoved
  generalize hOld : now.rowOf? (r.cells .path) = old at hMoved
  cases hMoved
  exact (Table.mem_of_rowOf?_eq_some hOld).1

theorem Leads.sound (h : k.Leads k.begin m) (hk : k.IsSound) : m.now.Sound :=
  h.moves.sound hk.start

theorem Counts.later (h : k.Counts q m c) (hLeads : k.Leads m m') : k.Counts q m' c := by
  obtain ⟨⟨r, hRow, hScanned⟩, call, hCall, hSettles⟩ := h
  exact ⟨⟨r, hLeads.moves.settled hRow, hScanned⟩, call, hLeads.calls hCall, hSettles⟩

theorem Walking.later (hk : k.IsSound) (h : k.Walking done q m) (hLeads : k.Leads m m') :
    k.Walking done q m' where
  since := h.since.trans hLeads
  waiting := h.waiting
  scanned id hId := hLeads.moves.confirms (h.since.sound hk) (h.scanned id hId)
  done a ha hFate := (h.done a ha hFate).imp_right fun hCounts => hCounts.later hLeads

theorem Sweeping.later (hk : k.IsSound) (h : k.Sweeping root visited ids q m)
    (hLeads : k.Leads m m') : k.Sweeping root visited ids q m' where
  since := h.since.trans hLeads
  waiting op hOp := by
    obtain ⟨id, rfl, hStray⟩ := h.waiting op hOp
    exact ⟨id, rfl, hLeads.moves.stray (h.since.sound hk) hStray⟩
  scanned id hId := hLeads.moves.confirms (h.since.sound hk) (h.scanned id hId)
  stray id hId := (h.stray id hId).imp_right (hLeads.moves.stray (h.since.sound hk))
  left r hr hIsOf hFate :=
    h.left r (hLeads.moves.mem_of_passed ((h.since.trans hLeads).sound hk) hr hFate) hIsOf hFate
  done a ha hFate := by
    obtain ⟨call, hCall, hSettles⟩ := h.done a ha hFate
    exact ⟨call, hLeads.calls hCall, hSettles⟩

theorem Rests.later (hk : k.IsSound) (h : k.Rests root visited m) (hLeads : k.Leads m m') :
    k.Rests root visited m' where
  since := h.since.trans hLeads
  swept r hr hIsOf hFate := by
    have hOld := hLeads.moves.mem_of_passed ((h.since.trans hLeads).sound hk) hr hFate
    exact h.swept r hOld hIsOf hFate
  done a ha hFate := by
    obtain ⟨call, hCall, hSettles⟩ := h.done a ha hFate
    exact ⟨call, hLeads.calls hCall, hSettles⟩

/-! ## The queue -/

theorem confirms_of_done {id : Int} (h : k.Done now op (some id)) : k.Confirms now id := by
  cases h with
  | upsert hRow =>
    obtain ⟨hr, hPath⟩ := Table.mem_of_rowOf?_eq_some hRow.1
    exact ⟨_, hr, rfl, hPath ▸ hRow.2.ne_passed⟩

/-- A queue that submits what is permitted comes to what the batch has done, and counts what the
batch tells as scanned; where nothing waits it stays as it is. -/
theorem bears_flush (hk : k.IsSound) (hSince : k.Leads k.begin m)
    (hPermits : ∀ op ∈ q.pending, k.Permits m.now op)
    (hScanned : ∀ id ∈ q.scanned, k.Confirms m.now id) {post : Queue.Progress → Moment → Prop}
    (hIdle : q.pending = [] → ∀ m', k.Leads m m' → post ⟨q, none⟩ m')
    (hApplied : ∀ ids q' m', k.Leads m m' → .submit q.pending (.ok ids) ∈ m'.calls →
      (∀ op ∈ q.pending, ∃ result ∈ ids, k.Done m'.now op result) → q'.pending = [] →
      (∀ id, id ∈ q'.scanned ↔ id ∈ q.scanned ∨ some id ∈ ids) →
      (∀ id ∈ q'.scanned, k.Confirms m'.now id) → post ⟨q', none⟩ m') :
    q.flush.Bears k.Leads post m := by
  unfold Queue.flush
  split
  · next hEmpty => exact hIdle (List.isEmpty_iff.mp hEmpty)
  · intro m₁ hLeads barrier clock ids later hApply
    have hNow := (hSince.trans hLeads).sound hk
    obtain ⟨hMoves, hOps, hIds⟩ := moves_of_applyAll hNow
      (fun op hOp => hLeads.moves.permits (hSince.sound hk) (hPermits op hOp)) hApply
    have hCall : k.Leads m₁ (m₁.after (.submit q.pending (.ok ids)) later) := by
      refine leads_after hMoves ?_
      rintro c (@⟨_, _, record, hOp, rfl⟩)
      obtain ⟨result, -, hDone⟩ := hOps _ hOp
      cases hDone with
      | upsert hRow => exact ⟨_, hRow⟩
    refine ⟨hCall, fun m₂ hLater => ?_⟩
    have hDone {op : Operation} {result : Option Int} (h : k.Done later op result) :
        k.Done m₂.now op result := hLater.moves.done (hMoves.sound hNow) h
    have hAll := (hLeads.trans hCall).trans hLater
    obtain ⟨-, hPending, -, hCollected⟩ := Queue.collect_spec
      { q with pending := [], applied := q.applied + q.pending.length } ids
    refine hApplied ids _ m₂ hAll (hLater.calls (List.mem_append_right _ List.mem_cons_self)) ?_
      hPending hCollected ?_
    · intro op hOp
      obtain ⟨result, hResult, hHere⟩ := hOps op hOp
      exact ⟨result, hResult, hDone hHere⟩
    · intro id hId
      rcases (hCollected id).mp hId with hOld | hNew
      · exact hAll.moves.confirms (hSince.sound hk) (hScanned id hOld)
      · obtain ⟨op, -, hHere⟩ := hIds _ hNew
        exact confirms_of_done (hDone hHere)

/-- The queue knows something whatever the others do. -/
def Lasts (k : Concert) (knows : Queue → Moment → Prop) : Prop :=
  ∀ {q m m'}, knows q m → k.Leads m m' → knows q m'

/-- A queue that is not stopped knows something in the end. -/
def Comes (knows : Queue → Moment → Prop) (progress : Queue.Progress) (m : Moment) : Prop :=
  progress.failure = none ∧ knows progress.queue m

variable {knows : Queue → Moment → Prop}

/-- A queue takes an operation in, if what it knows then is not lost when it submits. -/
theorem bears_add (hLasts : k.Lasts knows)
    (hFlush : ∀ q, knows q m →
      q.flush.Bears k.Leads (Comes fun q m => q.pending = [] ∧ knows q m) m)
    (h : knows (q.behind op) m) : (q.add op).Bears k.Leads (Comes knows) m := by
  simp only [Queue.add]
  split
  · exact (hFlush _ h).mono fun progress m' hCome => ⟨hCome.1, hCome.2.2⟩
  · exact fun m' hLeads => ⟨rfl, hLasts h hLeads⟩

theorem Walking.flush (hk : k.IsSound) (h : k.Walking done q m) : q.flush.Bears k.Leads
    (Comes fun q m => q.pending = [] ∧ k.Walking done q m) m := by
  refine bears_flush hk h.since (fun op hOp => ?_) h.scanned (fun hEmpty m' hLeads => ?_) ?_
  · obtain ⟨record, rfl, hFate⟩ := h.waiting op hOp
    exact .upsert hFate
  · exact ⟨rfl, hEmpty, h.later hk hLeads⟩
  · intro ids q' m' hLeads hCall hOps hPending hCollected hScanned
    have h' := h.later hk hLeads
    refine ⟨rfl, hPending, h'.since, by simp [hPending], hScanned, fun a ha hFate => .inr ?_⟩
    rcases h'.done a ha hFate with ⟨record, hWaiting, hPath⟩ | ⟨⟨r, hRow, hOld⟩, hSettled⟩
    · obtain ⟨result, hResult, hDone⟩ := hOps _ hWaiting
      cases hDone with
      | @upsert _ r hRow =>
        exact ⟨⟨r, hPath ▸ hRow, (hCollected _).mpr (.inr hResult)⟩, _, hCall,
          .written hWaiting hPath⟩
    · exact ⟨⟨r, hRow, (hCollected _).mpr (.inl hOld)⟩, hSettled⟩

theorem Sweeping.flush (hk : k.IsSound) (h : k.Sweeping root visited ids q m) :
    q.flush.Bears k.Leads
      (Comes fun q m => q.pending = [] ∧ k.Sweeping root visited ids q m) m := by
  refine bears_flush hk h.since (fun op hOp => ?_) h.scanned (fun hEmpty m' hLeads => ?_) ?_
  · obtain ⟨id, rfl, hStray⟩ := h.waiting op hOp
    exact .delete hStray
  · exact ⟨rfl, hEmpty, h.later hk hLeads⟩
  · intro ids q' m' hLeads hCall hOps hPending hCollected hScanned
    have h' := h.later hk hLeads
    refine ⟨rfl, hPending, h'.since, by simp [hPending], hScanned, ?_, ?_, h'.done⟩
    · exact fun id hId => (h'.stray id hId).imp_left fun hOld => (hCollected id).mpr (.inl hOld)
    · intro r hr hIsOf hFate
      rcases h'.left r hr hIsOf hFate with hRest | hWaiting
      · exact .inl hRest
      · obtain ⟨result, -, hDone⟩ := hOps _ hWaiting
        cases hDone with
        | delete _ hAbsent => exact absurd rfl (hAbsent r hr)

/-! ## Steps of the walk -/

/-- A pass that is not stopped goes on over the same root and knows something. -/
structure Goes (p : Pass) (knows : Queue → Moment → Prop) (progress : Pass.Progress) (m : Moment) :
    Prop where
  going : progress.failure = none
  continues : p.Continues progress.pass
  knows : knows progress.pass.queue m

variable {p p' : Pass} {a : Attributes}

theorem Goes.mono {weaker : Queue → Moment → Prop} {progress : Pass.Progress}
    (h : Goes p' knows progress m) (hContinues : p.Continues p')
    (hWeaker : ∀ q m, knows q m → weaker q m) : Goes p weaker progress m :=
  ⟨h.going, hContinues.trans h.continues, hWeaker _ _ h.knows⟩

theorem bears_going (hLasts : k.Lasts knows) (hContinues : p.Continues p')
    (h : knows p'.queue m) : (Pass.going p').Bears k.Leads (Goes p knows) m :=
  fun _ hLeads => ⟨rfl, hContinues, hLasts h hLeads⟩

theorem bears_enqueue {count : Tally → Tally} (hLasts : k.Lasts knows)
    (h : (p.queue.add op).Bears k.Leads (Comes knows) m) :
    (p.enqueue op count).Bears k.Leads (Goes p knows) m := by
  refine (h.mono ?_).andThen .refl
  rintro ⟨queue, failure⟩ m' ⟨rfl, hKnows⟩
  exact bears_going hLasts ⟨rfl, rfl⟩ hKnows

theorem bears_flush_pass (hLasts : k.Lasts knows)
    (h : p.queue.flush.Bears k.Leads (Comes knows) m) :
    p.flush.Bears k.Leads (Goes p knows) m := by
  refine (h.mono ?_).andThen .refl
  rintro ⟨queue, failure⟩ m' ⟨rfl, hKnows⟩
  exact bears_going hLasts ⟨rfl, rfl⟩ hKnows

/-- A stage that knows something is followed by one that goes on from that. -/
theorem bears_next {d : Dialogue Pass.Progress} {next : Pass → Dialogue Pass.Progress}
    {later : Queue → Moment → Prop} (h : d.Bears k.Leads (Goes p knows) m)
    (hNext : ∀ p' m, p.Continues p' → knows p'.queue m →
      (next p').Bears k.Leads (Goes p' later) m) :
    (Pass.Progress.andThen d next).Bears k.Leads (Goes p later) m := by
  apply Pass.bears_andThen .refl
  refine h.mono fun progress m' hGoes => ⟨hGoes.going, ?_⟩
  refine (hNext _ m' hGoes.continues hGoes.knows).mono fun last m'' hLast => ?_
  exact hLast.mono hGoes.continues fun _ _ hKnows => hKnows

theorem Walking.passed (h : k.Walking done q m) (hFate : k.fate (.text a.path.text) = .passed) :
    k.Walking (done ++ [a]) q m where
  since := h.since
  waiting := h.waiting
  scanned := h.scanned
  done b hb hOther := by
    rcases List.mem_append.mp hb with hDone | hLast
    · exact h.done b hDone hOther
    · rw [List.mem_singleton.mp hLast] at hOther
      exact absurd hFate hOther

theorem Walking.behind (h : k.Walking done q m) {record : Record}
    (hFate : k.fate (.text a.path.text) = .taken record)
    (hPath : record.cells .path = .text a.path.text) :
    k.Walking (done ++ [a]) (q.behind (.upsert record)) m where
  since := h.since
  waiting op hOp := by
    rcases List.mem_append.mp hOp with hWaiting | hLast
    · exact h.waiting op hWaiting
    · exact ⟨record, List.mem_singleton.mp hLast, hPath ▸ hFate⟩
  scanned := h.scanned
  done b hb hOther := by
    rcases List.mem_append.mp hb with hDone | hLast
    · rcases h.done b hDone hOther with ⟨other, hWaiting, hSame⟩ | ⟨hCounted, hCalled⟩
      · exact .inl ⟨other, List.mem_append_left _ hWaiting, hSame⟩
      · exact .inr ⟨hCounted, hCalled⟩
    · rw [List.mem_singleton.mp hLast]
      exact .inl ⟨record, List.mem_append_right _ List.mem_cons_self, hPath⟩

theorem Walking.mark (h : k.Walking done q m) (hRow : k.Settled m.now (.text a.path.text) r)
    {call : Call} (hCall : call ∈ m.calls) (hSettles : k.Settles (.text a.path.text) call) :
    k.Walking (done ++ [a]) (q.mark r.id) m where
  since := h.since
  waiting := by
    rw [Queue.pending_mark]
    exact h.waiting
  scanned id hId := by
    rcases (q.mem_scanned_mark r.id id).mp hId with hOld | rfl
    · exact h.scanned id hOld
    · obtain ⟨hr, hPath⟩ := Table.mem_of_rowOf?_eq_some hRow.1
      exact ⟨r, hr, rfl, hPath ▸ hRow.2.ne_passed⟩
  done b hb hOther := by
    rw [Queue.pending_mark]
    rcases List.mem_append.mp hb with hDone | hLast
    · refine (h.done b hDone hOther).imp_right ?_
      rintro ⟨⟨other, hSettled, hScanned⟩, hCalled⟩
      exact ⟨⟨other, hSettled, (q.mem_scanned_mark r.id _).mpr (.inl hScanned)⟩, hCalled⟩
    · rw [List.mem_singleton.mp hLast]
      exact .inr ⟨⟨r, hRow, (q.mem_scanned_mark r.id _).mpr (.inr rfl)⟩, call, hCall, hSettles⟩

theorem Sweeping.behind {id : Int} (h : k.Sweeping root visited (id :: ids) q m)
    (hOther : id ∉ q.scanned) : k.Sweeping root visited ids (q.behind (.delete id)) m where
  since := h.since
  waiting op hOp := by
    rcases List.mem_append.mp hOp with hWaiting | hLast
    · exact h.waiting op hWaiting
    · exact ⟨id, List.mem_singleton.mp hLast, (h.stray id List.mem_cons_self).resolve_left hOther⟩
  scanned := h.scanned
  stray other hMem := h.stray other (List.mem_cons_of_mem _ hMem)
  left r hr hIsOf hFate := by
    rcases h.left r hr hIsOf hFate with hMem | hWaiting
    · rcases List.mem_cons.mp hMem with hId | hMem
      · exact .inr (List.mem_append_right _ (hId ▸ List.mem_cons_self))
      · exact .inl hMem
    · exact .inr (List.mem_append_left _ hWaiting)
  done := h.done

theorem Sweeping.rests (h : k.Sweeping root visited [] q m) (hEmpty : q.pending = []) :
    k.Rests root visited m where
  since := h.since
  swept r hr hIsOf hFate := by
    rcases h.left r hr hIsOf hFate with hMem | hWaiting
    · cases hMem
    · rw [hEmpty] at hWaiting
      cases hWaiting
  done := h.done

section

variable (hk : k.IsSound)

include hk

theorem walking_lasts : k.Lasts (k.Walking done) := fun h hLeads => h.later hk hLeads

theorem sweeping_lasts : k.Lasts (k.Sweeping root visited ids) := fun h hLeads => h.later hk hLeads

/-- A lookup that finds an entry as it is on disk leaves its row where it is. -/
theorem exists_settled_of_lookup (h : k.Moves k.start now) {volume : String} {path : Path}
    {c : Cell} (hSettles : k.Settles c (.lookup volume path (.ok (now.lookup volume path)))) :
    ∃ r, k.Settled now c r := by
  generalize hReply : now.lookup volume path = reply at hSettles
  cases hSettles with
  | @confirmed a entry ha hPath hFresh =>
    have hKept : standing k.tree k.volume now a = .kept entry :=
      standing_eq_kept_iff.mpr ⟨hReply, (freshness_eq_unchanged_iff.mp hFresh).2⟩
    obtain ⟨r, hRow, -⟩ := settled_of_kept hk h ha hKept
    exact ⟨r, hPath ▸ hRow⟩

theorem leads_lookup (hSince : k.Leads k.begin m) (volume : String) (path : Path) :
    k.Leads m (m.after (.lookup volume path (.ok (m.now.lookup volume path))) m.now) :=
  leads_after (.refl _) fun _ hSettles => exists_settled_of_lookup hk hSince.moves hSettles

theorem Walking.enqueue {count : Tally → Tally}
    (h : k.Walking done (p.queue.behind op) m) :
    (p.enqueue op count).Bears k.Leads (Goes p (k.Walking done)) m :=
  bears_enqueue (walking_lasts hk) (bears_add (walking_lasts hk) (fun _ hq => hq.flush hk) h)

theorem Walking.taking (hVolume : p.volume = k.volume)
    (hQuiet : ∀ fault, Media.takeIn k.tree false a k.volume ≠ .error fault)
    (hNone : Media.recordOf? k.tree a k.volume = none → k.fate (.text a.path.text) = .passed)
    (hSome : ∀ record, Media.recordOf? k.tree a k.volume = some record →
      k.fate (.text a.path.text) = .taken record)
    (h : k.Walking done p.queue m) :
    (Pass.taking k.tree p a).Bears k.Leads (Goes p (k.Walking (done ++ [a]))) m := by
  unfold Pass.taking
  rw [hVolume]
  cases hTake : Media.takeIn k.tree p.told a k.volume with
  | error fault => exact absurd (Media.takeIn_eq_error_iff.mp hTake) (hQuiet fault)
  | ok intake =>
    have hRecord := Media.record_of_takeIn hTake
    refine Dialogue.bears_tellAll.mpr ?_
    cases hIntake : intake.record with
    | none =>
      exact bears_going (walking_lasts hk) (.refl p) (h.passed (hNone (hRecord ▸ hIntake)))
    | some record =>
      have hFound : Media.recordOf? k.tree a k.volume = some record := hRecord ▸ hIntake
      have hPath := Media.cells_text (Media.recordOf?_path hFound) rfl
      exact Walking.enqueue hk (h.behind (hSome record hFound) hPath)

theorem Walking.visit (hVolume : p.volume = k.volume) (ha : a ∈ k.entries)
    (hQuiet : ∀ fault, Media.takeIn k.tree false a k.volume ≠ .error fault)
    (h : k.Walking done p.queue m) :
    (p.visit k.tree a).Bears k.Leads (Goes p (k.Walking (done ++ [a]))) m := by
  rw [Pass.visit]
  intro m₁ hLeads
  have h₁ := h.later hk hLeads
  have hCall := leads_lookup hk h₁.since p.volume a.path
  have h₂ := h₁.later hk hCall
  refine ⟨hCall, ?_⟩
  rcases standing_cases k.tree p.volume m₁.now a with ⟨entry, hFresh, hKept⟩ | ⟨hFresh, hStanding⟩
  · obtain ⟨hFound, -⟩ := standing_eq_kept_iff.mp hKept
    rw [hVolume] at hKept
    obtain ⟨r, hRow, hId⟩ := settled_of_kept hk h₁.since.moves ha hKept
    have hSettles : k.Settles (.text a.path.text)
        (.lookup p.volume a.path (.ok (m₁.now.lookup p.volume a.path))) := by
      rw [hFound] at hFresh ⊢
      rw [hVolume]
      exact .confirmed ha rfl hFresh
    simp only [hFresh]
    rw [← hId]
    exact bears_going (walking_lasts hk) ⟨rfl, rfl⟩
      (h₂.mark hRow (List.mem_append_right _ List.mem_cons_self) hSettles)
  · rw [hVolume] at hStanding
    have hTaking : (Pass.taking k.tree p.visiting a).Bears k.Leads
        (Goes p (k.Walking (done ++ [a]))) (m₁.after
          (.lookup p.volume a.path (.ok (m₁.now.lookup p.volume a.path))) m₁.now) := by
      refine (Walking.taking (p := p.visiting) hk hVolume hQuiet (fun hNone => ?_)
        (fun record hSome => ?_) h₂).mono fun _ _ hGoes =>
          hGoes.mono (Pass.continues_visiting p) fun _ _ hKnows => hKnows
      · rw [hNone] at hStanding
        exact fate_of_passed hk h₁.since.moves ha hStanding
      · rw [hSome] at hStanding
        exact fate_of_taken hk h₁.since.moves ha hStanding
    cases hCase : freshness a (m₁.now.lookup p.volume a.path) with
    | unchanged entry => exact absurd hCase (hFresh entry)
    | stale =>
      simp only [hCase]
      exact hTaking
    | new =>
      simp only [hCase]
      exact hTaking

theorem Walking.observe {event : Event} (hVolume : p.volume = k.volume)
    (hVisited : ∀ a, event.visited? = some a → a ∈ k.entries)
    (hQuiet : ¬ Interrupts k.tree k.volume event) (h : k.Walking done p.queue m) :
    (p.observe k.tree event).Bears k.Leads (Goes p (k.Walking (done ++ event.visited?.toList)))
      m := by
  have hIdle : k.Walking (done ++ (none : Option Attributes).toList) p.queue m := by
    rw [Option.toList_none, List.append_nil]
    exact h
  cases event with
  | visit a => exact h.visit hk hVolume (hVisited a rfl) fun fault hFault => hQuiet ⟨fault, hFault⟩
  | hidden path => exact bears_going (walking_lasts hk) (.refl p) hIdle
  | failed path fault =>
    cases fault with
    | interrupted => exact absurd rfl hQuiet
    | failed reason text => exact bears_going (walking_lasts hk) ⟨rfl, rfl⟩ hIdle
  | leave path => exact bears_going (walking_lasts hk) (.refl p) hIdle

theorem Walking.observeAll {events : List Event} (hVolume : p.volume = k.volume)
    (hVisited : ∀ a ∈ events.filterMap Event.visited?, a ∈ k.entries)
    (hQuiet : ∀ event ∈ events, ¬ Interrupts k.tree k.volume event)
    (h : k.Walking done p.queue m) : (Pass.observeAll k.tree events p).Bears k.Leads
      (Goes p (k.Walking (done ++ events.filterMap Event.visited?))) m := by
  induction events generalizing p done m with
  | nil =>
    refine bears_going (walking_lasts hk) (.refl p) ?_
    rw [List.filterMap_nil, List.append_nil]
    exact h
  | cons event events ih =>
    have hSplit : (event :: events).filterMap Event.visited? =
        event.visited?.toList ++ events.filterMap Event.visited? := by
      rw [List.filterMap_cons]
      cases event.visited? <;> rfl
    rw [hSplit] at hVisited ⊢
    have hFirst := h.observe hk hVolume
      (fun a ha => hVisited a (List.mem_append_left _ (Option.mem_toList.mpr ha)))
      (hQuiet event List.mem_cons_self)
    refine bears_next hFirst fun p' m' hContinues hKnows => ?_
    rw [← List.append_assoc]
    exact ih (hContinues.volume.trans hVolume)
      (fun a ha => hVisited a (List.mem_append_right _ ha))
      (fun other hOther => hQuiet other (List.mem_cons_of_mem _ hOther)) hKnows

theorem Walking.explore (hVolume : p.volume = k.volume)
    (hVisited : ∀ a ∈ Walk.visits k.tree p.root, a ∈ k.entries)
    (hQuiet : ∀ event ∈ Walk.walk k.tree p.root, ¬ Interrupts k.tree k.volume event)
    (h : k.Walking [] p.queue m) : (p.explore k.tree).Bears k.Leads (Goes p fun q m =>
      q.pending = [] ∧ k.Walking (Walk.visits k.tree p.root) q m) m := by
  have hWalk := h.observeAll hk hVolume hVisited hQuiet
  refine bears_next hWalk fun p' m' _ hKnows => bears_flush_pass ?_ (hKnows.flush hk)
  exact fun hBoth hLeads => ⟨hBoth.1, hBoth.2.later hk hLeads⟩

/-! ## Steps of the sweep -/

/-- A pass that has come to all that it visits, and has nothing waiting, may begin its sweep. -/
theorem Walking.sweeping (hRoot : root.IsAbsolute) (hMember : root ∈ k.roots)
    (hBelow : ∀ r, Table.IsOf k.volume root r → ∀ a ∈ k.entries,
      r.cells .path = .text a.path.text → a ∈ visited)
    (hEmpty : q.pending = []) (h : k.Walking visited q m) :
    k.Sweeping root visited (m.now.idsUnder k.volume root) q m where
  since := h.since
  waiting := by simp [hEmpty]
  scanned := h.scanned
  stray id hId := by
    obtain ⟨r, hr, hIsOf, rfl⟩ := (Table.mem_idsUnder hRoot.zero_notMem_text).mp hId
    have hNow := h.since.sound hk
    by_cases hFate : k.fate (r.cells .path) = .passed
    · refine .inr ⟨hNow.counted r hr, fun other hOther hSame => ?_⟩
      obtain rfl := hNow.eq_of_id_eq hOther hr hSame
      exact ⟨hFate, root, hMember, hIsOf⟩
    · left
      obtain ⟨a, ha, hPath⟩ := exists_entry_of_fate hFate
      rcases h.done a (hBelow r hIsOf a ha hPath) (hPath ▸ hFate) with
        ⟨record, hWaiting, -⟩ | ⟨⟨row, hRow, hScanned⟩, -⟩
      · rw [hEmpty] at hWaiting
        cases hWaiting
      · obtain ⟨hMem, hSame⟩ := Table.mem_of_rowOf?_eq_some hRow.1
        rw [hNow.eq_of_path_eq hr hMem (hPath.trans hSame.symm)]
        exact hScanned
  left r hr hIsOf _ := .inl ((Table.mem_idsUnder hRoot.zero_notMem_text).mpr ⟨r, hr, hIsOf, rfl⟩)
  done a ha hFate := by
    rcases h.done a ha hFate with ⟨record, hWaiting, -⟩ | ⟨-, hCalled⟩
    · rw [hEmpty] at hWaiting
      cases hWaiting
    · exact hCalled

theorem Sweeping.skip {id : Int} (h : k.Sweeping root visited (id :: ids) q m)
    (hScanned : id ∈ q.scanned) : k.Sweeping root visited ids q m where
  since := h.since
  waiting := h.waiting
  scanned := h.scanned
  stray other hOther := h.stray other (List.mem_cons_of_mem _ hOther)
  left r hr hIsOf hFate := by
    refine (h.left r hr hIsOf hFate).imp_left fun hMem => ?_
    rcases List.mem_cons.mp hMem with hId | hMem
    · obtain ⟨o, ho, hSame, hOther⟩ := h.scanned id hScanned
      rw [(h.since.sound hk).eq_of_id_eq ho hr (hSame.trans hId.symm)] at hOther
      exact absurd hFate hOther
    · exact hMem
  done := h.done

theorem Sweeping.enqueue {count : Tally → Tally}
    (h : k.Sweeping root visited ids (p.queue.behind op) m) :
    (p.enqueue op count).Bears k.Leads (Goes p (k.Sweeping root visited ids)) m :=
  bears_enqueue (sweeping_lasts hk) (bears_add (sweeping_lasts hk) (fun _ hq => hq.flush hk) h)

theorem Sweeping.clean (h : k.Sweeping root visited ids p.queue m) :
    (Pass.clean ids p).Bears k.Leads (Goes p (k.Sweeping root visited [])) m := by
  induction ids generalizing p m with
  | nil => exact bears_going (sweeping_lasts hk) (.refl p) h
  | cons id ids ih =>
    rw [Pass.clean]
    split
    · next hScanned => exact ih (h.skip hk hScanned)
    · next hOther =>
      exact bears_next (Sweeping.enqueue hk (h.behind hOther)) fun p' m' _ hKnows => ih hKnows

theorem Walking.sweep (hVolume : p.volume = k.volume) (hRoot : p.root.IsAbsolute)
    (hMember : p.root ∈ k.roots) (hBelow : ∀ r, Table.IsOf k.volume p.root r → ∀ a ∈ k.entries,
      r.cells .path = .text a.path.text → a ∈ visited)
    (hEmpty : p.queue.pending = []) (h : k.Walking visited p.queue m) :
    p.sweep.Bears k.Leads (Goes p fun _ => k.Rests p.root visited) m := by
  intro m₁ hLeads
  have hCall : k.Leads m₁ (m₁.after (.idsUnder p.volume p.root
      (.ok (m₁.now.idsUnder p.volume p.root))) m₁.now) :=
    leads_after (.refl _) fun c hSettles => by cases hSettles
  have hSweeping := (h.later hk hLeads).sweeping hk hRoot hMember hBelow hEmpty
  rw [← hVolume] at hSweeping
  refine ⟨hCall, bears_next ((hSweeping.later hk hCall).clean hk) fun p' m' _ hKnows => ?_⟩
  refine bears_flush_pass (fun hRests hLater => hRests.later hk hLater)
    ((hKnows.flush hk).mono fun progress m'' hCome => ?_)
  exact ⟨hCome.1, hCome.2.2.rests hCome.2.1⟩

/-! ## Whole passes -/

/-- A new pass that is one of the concert. What lies at or below its root and is visited at all, it
visits. -/
structure Plays (k : Concert) (p : Pass) : Prop where
  isNew : ∃ size, p.IsNew size
  root : p.root.IsAbsolute
  volume : p.volume = k.volume
  member : p.root ∈ k.roots
  visited : p.visited k.tree ⊆ k.entries
  below : ∀ r, Table.IsOf k.volume p.root r → ∀ a ∈ k.entries,
    r.cells .path = .text a.path.text → a ∈ p.visited k.tree
  quiet : p.IsQuiet k.tree

variable (hPlays : k.Plays p)

include hPlays

theorem Plays.finish (hContinues : p.Continues p') (hEmpty : p'.queue.pending = [])
    (h : k.Walking (p.visited k.tree) p'.queue m) :
    p'.finish.Bears k.Leads (Goes p' fun _ => k.Rests p.root (p.visited k.tree)) m := by
  have hVolume : p'.volume = k.volume := hContinues.volume.trans hPlays.volume
  have hRoot : p'.root = p.root := hContinues.root
  have hSweep := Walking.sweep (p := { p' with phase := .sweeping }) hk hVolume
    (hRoot ▸ hPlays.root) (hRoot ▸ hPlays.member) (hRoot ▸ hPlays.below) hEmpty h
  have hFinish : p'.finish.Bears k.Leads (Goes { p' with phase := .sweeping }
      fun _ => k.Rests p'.root (p.visited k.tree)) m :=
    bears_next hSweep fun last m' _ hKnows =>
      bears_going (fun hRests hLater => hRests.later hk hLater) (.refl last) hKnows
  exact hFinish.mono fun _ _ hGoes => hGoes.mono ⟨rfl, rfl⟩ fun _ _ hKnows => hRoot ▸ hKnows

/-- A pass of the concert is not stopped, and comes to what it has to bring about. -/
theorem Plays.bears_run : (p.run k.tree).Bears k.Leads (fun progress m => progress.failure = none ∧
    k.Rests p.root (p.visited k.tree) m) k.begin := by
  obtain ⟨size, hNew⟩ := hPlays.isNew
  have hStart : k.Walking [] p.queue k.begin := by
    rw [hNew.queue]
    exact ⟨.refl _, by simp [Queue.ofSize], by simp [Queue.ofSize], by simp⟩
  have hEmpty : p.queue.pending = [] := by
    rw [hNew.queue]
    rfl
  rw [Pass.run, if_neg (not_not_intro hNew.phase)]
  obtain ⟨isHidden, hHidden⟩ := hPlays.quiet.hidden
  rw [hHidden]
  cases isHidden with
  | true =>
    have hVisited : p.visited k.tree = [] := by
      rw [Pass.visited, hHidden]
    refine (hPlays.finish hk (.refl p) hEmpty (hVisited ▸ hStart)).mono fun _ _ hGoes => ?_
    exact ⟨hGoes.going, hGoes.knows⟩
  | false =>
    have hVisited : p.visited k.tree = Walk.visits k.tree p.root := by
      rw [Pass.visited, hHidden]
    have hExplore := Walking.explore (p := { p with phase := .walking }) hk hPlays.volume
      (fun a ha => hPlays.visited (hVisited ▸ ha))
      (hPlays.volume ▸ hPlays.quiet.walk hHidden) hStart
    have hRun : (Pass.Progress.andThen (Pass.explore k.tree { p with phase := .walking })
        Pass.finish).Bears k.Leads (Goes { p with phase := .walking }
          fun _ => k.Rests p.root (p.visited k.tree)) k.begin :=
      bears_next hExplore fun p' m' hContinues hKnows =>
        hPlays.finish hk ⟨hContinues.root, hContinues.volume⟩ hKnows.1 (hVisited ▸ hKnows.2)
    exact hRun.mono fun _ _ hGoes => ⟨hGoes.going, hGoes.knows⟩

end

end MediaIndex.Reconcile.Concert
