import MediaIndex.Proofs.Exactness

/-!
# How a pass can fail

A pass sets faults of single paths and lost batches aside, and tells of them. What stops it is its
first look at where its root lies, an interrupt, or a call that is not set aside, which is then its
last one: a query that the catalog does not answer, or a batch with a number that is too wide. This
holds over whatever store, with a table or without.
-/

namespace MediaIndex.Reconcile

open Catalog (Operation Refusal Store)
open Disk (Attributes Fault Node Tree)
open Walk (Event)

/-! ## What a dialogue makes known -/

namespace Dialogue

variable {α β : Type} {post : List Call → List Note → β → Prop}

theorem calls_andThen (d : Dialogue α) (f : α → Dialogue β) (s : Store) :
    (d.andThen f).calls s = d.calls s ++ (f (d.run s).result).calls (d.run s).store := by
  induction d generalizing s with
  | finish a => rfl
  | tell note next ih => exact ih s
  | lookup volume path next ih => exact congrArg (List.cons _) (ih _ _)
  | idsUnder volume root next ih => exact congrArg (List.cons _) (ih _ _)
  | submit ops next ih => exact congrArg (List.cons _) (ih _ _)

theorem run_andThen (d : Dialogue α) (f : α → Dialogue β) (s : Store) :
    (d.andThen f).run s =
      { (f (d.run s).result).run (d.run s).store with
        notes := (d.run s).notes ++ ((f (d.run s).result).run (d.run s).store).notes } := by
  induction d generalizing s with
  | finish a => rfl
  | tell note next ih => exact congrArg (Run.after note) (ih s)
  | lookup volume path next ih => exact ih _ _
  | idsUnder volume root next ih => exact ih _ _
  | submit ops next ih => exact ih _ _

/-- Over whatever store, the calls, the notes and the result of a dialogue have a property. -/
def Accounts (d : Dialogue β) (post : List Call → List Note → β → Prop) : Prop :=
  ∀ s, post (d.calls s) (d.run s).notes (d.run s).result

theorem Accounts.mono {d : Dialogue β} {weaker : List Call → List Note → β → Prop}
    (h : d.Accounts post) (hWeaker : ∀ calls notes b, post calls notes b → weaker calls notes b) :
    d.Accounts weaker :=
  fun s => hWeaker _ _ _ (h s)

theorem accounts_finish {b : β} (h : post [] [] b) : (finish b).Accounts post := fun _ => h

theorem accounts_tell {note : Note} {next : Dialogue β}
    (h : next.Accounts fun calls notes b => post calls (note :: notes) b) :
    (tell note next).Accounts post := h

theorem accounts_lookup {volume : String} {path : Path}
    {next : Except Catalog.StoreFault (Option Catalog.Entry) → Dialogue β}
    (h : ∀ reply, (next reply).Accounts fun calls notes b =>
      post (.lookup volume path reply :: calls) notes b) :
    (lookup volume path next).Accounts post := fun _ => h _ _

theorem accounts_idsUnder {volume : String} {root : Path}
    {next : Except Catalog.StoreFault (List Int) → Dialogue β}
    (h : ∀ reply, (next reply).Accounts fun calls notes b =>
      post (.idsUnder volume root reply :: calls) notes b) :
    (idsUnder volume root next).Accounts post := fun _ => h _ _

theorem accounts_submit {ops : List Operation}
    {next : Except Catalog.Failure (List (Option Int)) → Dialogue β}
    (h : ∀ s : Store, (next (s.submit ops).1).Accounts fun calls notes b =>
      post (.submit ops (s.submit ops).1 :: calls) notes b) :
    (submit ops next).Accounts post := fun s => h s _

theorem accounts_andThen {d : Dialogue α} {f : α → Dialogue β}
    (h : d.Accounts fun calls notes a => (f a).Accounts fun more others b =>
      post (calls ++ more) (notes ++ others) b) : (d.andThen f).Accounts post := by
  intro s
  rw [calls_andThen, run_andThen]
  exact h s _

end Dialogue

/-! ## Failures of calls -/

namespace Failure

/-- The failure is one of the disk. -/
def isDisk : Failure → Bool
  | disk _ => true
  | _ => false

theorem exists_disk {failure : Failure} (h : failure.isDisk = true) :
    ∃ fault, failure = .disk fault := by
  cases failure with
  | disk fault => exact ⟨fault, rfl⟩
  | _ => cases h

/-- The failure says that a query of the walk or of the sweep was not answered. -/
def isUnanswered : Failure → Bool
  | walk _ _ => true
  | cleanup _ _ => true
  | _ => false

end Failure

/-- The failure with which a call stops a pass over a root. -/
def Call.failure? (root : Path) : Call → Option Failure
  | lookup _ path (.error fault) => some (.walk root (.lookup path fault))
  | idsUnder _ _ (.error fault) => some (.cleanup root (.range root fault))
  | submit _ (.error (.batch _ _)) => none
  | submit _ (.error cause) => some (.catalog cause)
  | _ => none

def lossNote (cause : Catalog.Failure) : Note := .warning ("Failed to apply: " ++ cause.message)

def faultNote (path : Path) (fault : Fault) : Note :=
  .warning ("Failed to visit " ++ path.text ++ ": " ++ fault.message)

/-- The operation is one that a pass may queue. -/
def IsKnown (op : Operation) : Prop := ∀ v, op ≠ .unknown v

theorem refusal_of_unfit {op : Operation} {refusal : Refusal} (hKnown : IsKnown op)
    (h : op.unfit? = some refusal) : refusal = .tooWide ∨ ∃ fault, refusal = .fault fault := by
  cases op with
  | upsert record =>
    obtain ⟨⟨c, position⟩, -, hBind⟩ := List.exists_of_findSome?_eq_some h
    dsimp only at hBind
    split at hBind
    · cases hBind
    · exact .inl (Option.some.inj hBind).symm
    · exact .inr ⟨_, (Option.some.inj hBind).symm⟩
  | delete id =>
    rw [Operation.unfit?] at h
    split at h
    · cases h
    · exact .inl (Option.some.inj h).symm
  | unknown v => exact absurd rfl (hKnown v)

/-- A batch of operations that a pass queues is lost, or one of them has a number too wide. -/
theorem lost_or_tooWide {s : Store} {ops : List Operation} {cause : Catalog.Failure}
    (hKnown : ∀ op ∈ ops, IsKnown op) (h : (s.submit ops).1 = .error cause) :
    (∃ size fault, cause = .batch size fault) ∨
      cause = .tooWide ∧ ∃ op ∈ ops, op.unfit? = some .tooWide := by
  rcases Store.submit_eq_error h with hLost | ⟨op, hOp, refusal, hUnfit, rfl⟩
  · exact .inl hLost
  · rcases refusal_of_unfit (hKnown op hOp) hUnfit with rfl | ⟨fault, rfl⟩
    · exact .inr ⟨rfl, op, hOp, hUnfit⟩
    · exact .inl ⟨_, fault, rfl⟩

/-! ## What a stage owns up to -/

/-- What becomes known of a stage that works off events of a walk: the calls it makes and what it
tells account for how it ends. A failure that is not one of the disk is that of a call, and no call
has another. -/
structure Account (t : Tree) (root : Path) (volume : String) (events : List Event)
    (calls : List Call) (notes : List Note) (failure : Option Failure) : Prop where
  failures : calls.filterMap (·.failure? root) = (failure.filter (!·.isDisk)).toList
  disk : ∀ fault, failure = some (.disk fault) →
    fault = .interrupted ∧ ∃ event ∈ events, Interrupts t volume event
  batches : ∀ ops cause, .submit ops (.error cause) ∈ calls →
    ((∃ size fault, cause = .batch size fault) ∧ lossNote cause ∈ notes) ∨
      cause = .tooWide ∧ ∃ op ∈ ops, op.unfit? = some .tooWide
  told : failure = none → ∀ path fault, .failed path fault ∈ events → faultNote path fault ∈ notes

section

variable {t : Tree} {root : Path} {volume : String} {events later : List Event}
  {calls more : List Call} {notes others : List Note} {failure : Option Failure}

theorem Account.nil : Account t root volume [] [] [] none :=
  ⟨rfl, by simp, by simp, by simp⟩

theorem Account.append (h : Account t root volume events calls notes none)
    (h' : Account t root volume later more others failure) :
    Account t root volume (events ++ later) (calls ++ more) (notes ++ others) failure where
  failures := by
    rw [List.filterMap_append, h.failures, h'.failures]
    rfl
  disk fault hFault := by
    obtain ⟨hInterrupted, event, hEvent, hInterrupts⟩ := h'.disk fault hFault
    exact ⟨hInterrupted, event, List.mem_append_right _ hEvent, hInterrupts⟩
  batches ops cause hCall := by
    rcases List.mem_append.mp hCall with hCall | hCall
    · exact (h.batches ops cause hCall).imp_left (.imp_right (List.mem_append_left _))
    · exact (h'.batches ops cause hCall).imp_left (.imp_right (List.mem_append_right _))
  told hGoing path fault hEvent := by
    rcases List.mem_append.mp hEvent with hEvent | hEvent
    · exact List.mem_append_left _ (h.told rfl path fault hEvent)
    · exact List.mem_append_right _ (h'.told hGoing path fault hEvent)

theorem Account.tell {note : Note} (h : Account t root volume events calls notes failure) :
    Account t root volume events calls (note :: notes) failure where
  failures := h.failures
  disk := h.disk
  batches ops cause hCall :=
    (h.batches ops cause hCall).imp_left (.imp_right (List.mem_cons_of_mem _))
  told hGoing path fault hEvent := List.mem_cons_of_mem _ (h.told hGoing path fault hEvent)

theorem Account.asked {call : Call} (h : Account t root volume events calls notes failure)
    (hAnswered : call.failure? root = none) (hQuery : call.isBatch = false) :
    Account t root volume events (call :: calls) notes failure where
  failures := by rw [List.filterMap_cons_none hAnswered, h.failures]
  disk := h.disk
  batches ops cause hCall := by
    rcases List.mem_cons.mp hCall with rfl | hCall
    · cases hQuery
    · exact h.batches ops cause hCall
  told := h.told

/-- A report of something other than a fault need not be told. -/
theorem Account.observed {event : Event} (h : Account t root volume [] calls notes failure)
    (hEvent : ∀ path fault, event ≠ .failed path fault) :
    Account t root volume [event] calls notes failure where
  failures := h.failures
  disk fault hFault := by
    obtain ⟨-, other, hOther, -⟩ := h.disk fault hFault
    cases hOther
  batches := h.batches
  told hGoing path fault hFailed :=
    absurd (List.mem_singleton.mp hFailed).symm (hEvent path fault)

/-- A stage that is stopped works off no more events. -/
theorem Account.stopped {stop : Failure}
    (h : Account t root volume events calls notes (some stop)) :
    Account t root volume (events ++ later) calls notes (some stop) where
  failures := h.failures
  disk fault hFault := by
    obtain ⟨hInterrupted, event, hEvent, hInterrupts⟩ := h.disk fault hFault
    exact ⟨hInterrupted, event, List.mem_append_left _ hEvent, hInterrupts⟩
  batches := h.batches
  told hGoing := by cases hGoing

end

/-! ## The queue -/

def Queue.HoldsKnown (q : Queue) : Prop := ∀ op ∈ q.pending, IsKnown op

section

variable (t : Tree) (root : Path) (volume : String)

theorem Queue.accounts_flush {q : Queue} (hKnown : q.HoldsKnown) :
    q.flush.Accounts fun calls notes progress => progress.queue.HoldsKnown ∧
      Account t root volume [] calls notes (progress.failure.map .catalog) := by
  unfold flush
  split
  · exact Dialogue.accounts_finish ⟨hKnown, .nil⟩
  · apply Dialogue.accounts_submit
    intro s
    cases hReply : (s.submit q.pending).1 with
    | ok ids =>
      apply Dialogue.accounts_tell
      apply Dialogue.accounts_finish
      refine ⟨?_, rfl, by simp, by simp, by simp⟩
      rw [HoldsKnown, (collect_spec _ _).2.1]
      simp
    | error cause =>
      have hOnly : ∀ ops other, Call.submit ops (.error other) ∈
          [Call.submit q.pending (.error cause)] → ops = q.pending ∧ other = cause := by
        simp
      rcases lost_or_tooWide hKnown hReply with ⟨size, fault, rfl⟩ | ⟨rfl, hWide⟩
      · apply Dialogue.accounts_tell
        apply Dialogue.accounts_finish
        refine ⟨by simp [HoldsKnown], rfl, by simp, fun ops other hCall => ?_, by simp⟩
        obtain ⟨-, rfl⟩ := hOnly ops other hCall
        exact .inl ⟨⟨size, fault, rfl⟩, List.mem_singleton_self _⟩
      · apply Dialogue.accounts_finish
        refine ⟨by simp [HoldsKnown], rfl, by simp, fun ops other hCall => ?_, by simp⟩
        obtain ⟨rfl, rfl⟩ := hOnly ops other hCall
        exact .inr ⟨rfl, hWide⟩

theorem Queue.accounts_add {q : Queue} (hKnown : q.HoldsKnown) {op : Operation}
    (hOp : IsKnown op) :
    (q.add op).Accounts fun calls notes progress => progress.queue.HoldsKnown ∧
      Account t root volume [] calls notes (progress.failure.map .catalog) := by
  have hBehind : (q.behind op).HoldsKnown := by
    intro other hOther
    rcases List.mem_append.mp hOther with hOld | hNew
    · exact hKnown other hOld
    · exact List.mem_singleton.mp hNew ▸ hOp
  simp only [add]
  split
  · exact accounts_flush t root volume hBehind
  · exact Dialogue.accounts_finish ⟨hBehind, .nil⟩

end

/-! ## The stages of a pass -/

namespace Pass

/-- A stage that works off events from a pass on keeps to its root and accounts for its end. -/
def Owns (t : Tree) (p : Pass) (events : List Event) (d : Dialogue Progress) : Prop :=
  d.Accounts fun calls notes progress => p.Continues progress.pass ∧
    progress.pass.queue.HoldsKnown ∧
    Account t p.root p.volume events calls notes progress.failure

variable {t : Tree} {p : Pass} {events later : List Event}

theorem owns_going (hKnown : p.queue.HoldsKnown) : Owns t p [] (going p) :=
  Dialogue.accounts_finish ⟨.refl p, hKnown, .nil⟩

theorem Owns.andThen {d : Dialogue Progress} {next : Pass → Dialogue Progress}
    (h : Owns t p events d)
    (hNext : ∀ p', p.Continues p' → p'.queue.HoldsKnown → Owns t p' later (next p')) :
    Owns t p (events ++ later) (Progress.andThen d next) := by
  refine Dialogue.accounts_andThen (h.mono ?_)
  rintro calls notes ⟨p', failure⟩ ⟨hContinues, hKnown, hAccount⟩
  cases failure with
  | none =>
    -- The later pass has the same root and volume, so its account is one of this pass.
    refine (hNext p' hContinues hKnown).mono ?_
    rintro more others progress ⟨hMore, hStill, hRest⟩
    rw [hContinues.root, hContinues.volume] at hRest
    exact ⟨hContinues.trans hMore, hStill, hAccount.append hRest⟩
  | some stop =>
    refine Dialogue.accounts_finish ⟨hContinues, hKnown, ?_⟩
    rw [List.append_nil, List.append_nil]
    exact hAccount.stopped

theorem owns_enqueue (hKnown : p.queue.HoldsKnown) {op : Operation} (hOp : IsKnown op)
    (count : Tally → Tally) : Owns t p [] (p.enqueue op count) := by
  refine Dialogue.accounts_andThen ((Queue.accounts_add t p.root p.volume hKnown hOp).mono ?_)
  rintro calls notes ⟨queue, failure⟩ ⟨hStill, hAccount⟩
  cases failure <;>
  · refine Dialogue.accounts_finish ⟨⟨rfl, rfl⟩, hStill, ?_⟩
    rw [List.append_nil, List.append_nil]
    exact hAccount

theorem owns_flush (hKnown : p.queue.HoldsKnown) : Owns t p [] p.flush := by
  refine Dialogue.accounts_andThen ((Queue.accounts_flush t p.root p.volume hKnown).mono ?_)
  rintro calls notes ⟨queue, failure⟩ ⟨hStill, hAccount⟩
  refine Dialogue.accounts_finish ⟨⟨rfl, rfl⟩, hStill, ?_⟩
  rw [List.append_nil, List.append_nil]
  exact hAccount

theorem Owns.tell {d : Dialogue Progress} (h : Owns t p events d) (note : Note) :
    Owns t p events (.tell note d) := by
  refine Dialogue.accounts_tell (Dialogue.Accounts.mono h ?_)
  rintro calls notes progress ⟨hContinues, hKnown, hAccount⟩
  exact ⟨hContinues, hKnown, hAccount.tell⟩

theorem Owns.tellAll {told : List Note} {d : Dialogue Progress} (h : Owns t p events d) :
    Owns t p events (.tellAll told d) := by
  induction told with
  | nil => exact h
  | cons note told ih => exact ih.tell note

theorem Owns.of_continues {p' : Pass} {d : Dialogue Progress} (h : Owns t p' events d)
    (hContinues : p.Continues p') : Owns t p events d := by
  refine Dialogue.Accounts.mono h ?_
  rintro calls notes progress ⟨hMore, hKnown, hAccount⟩
  rw [hContinues.root, hContinues.volume] at hAccount
  exact ⟨hContinues.trans hMore, hKnown, hAccount⟩

/-- An answer to a query goes before what a stage makes known. -/
theorem Owns.asked {call : Call} {d : Dialogue Progress} (h : Owns t p events d)
    (hAnswered : call.failure? p.root = none) (hQuery : call.isBatch = false) :
    d.Accounts fun calls notes progress => p.Continues progress.pass ∧
      progress.pass.queue.HoldsKnown ∧
      Account t p.root p.volume events (call :: calls) notes progress.failure := by
  refine Dialogue.Accounts.mono h ?_
  rintro calls notes progress ⟨hContinues, hKnown, hAccount⟩
  exact ⟨hContinues, hKnown, hAccount.asked hAnswered hQuery⟩

theorem Owns.observed {event : Event} {d : Dialogue Progress} (h : Owns t p [] d)
    (hEvent : ∀ path fault, event ≠ .failed path fault) : Owns t p [event] d := by
  refine Dialogue.Accounts.mono h ?_
  rintro calls notes progress ⟨hContinues, hKnown, hAccount⟩
  exact ⟨hContinues, hKnown, hAccount.observed hEvent⟩

/-- What a visit does once it finds that its entry has to be taken in. -/
def taking (t : Tree) (p : Pass) (a : Attributes) : Dialogue Progress :=
  match Media.takeIn t p.told a p.volume with
  | .error fault => stopped p (.disk fault)
  | .ok intake => .tellAll intake.notes <| match intake.record with
    | none => going p
    | some record => p.enqueue (.upsert record) countQueued

theorem owns_taking (hKnown : p.queue.HoldsKnown) (a : Attributes) :
    Owns t p [.visit a] (taking t p a) := by
  unfold taking
  cases hTake : Media.takeIn t p.told a p.volume with
  | error fault =>
    -- Every other failure to read a file was set aside when it was taken in.
    refine Dialogue.accounts_finish ⟨.refl p, hKnown, rfl, ?_, by simp, by simp⟩
    rintro _ ⟨⟩
    have hInterrupts : Interrupts t p.volume (.visit a) :=
      ⟨fault, Media.takeIn_eq_error_iff.mp hTake⟩
    exact ⟨Media.eq_interrupted_of_takeIn hTake, _, List.mem_cons_self, hInterrupts⟩
  | ok intake =>
    apply Owns.tellAll
    apply Owns.observed ?_ (by simp)
    cases intake.record with
    | none => exact owns_going hKnown
    | some record => exact owns_enqueue hKnown (fun _ => Operation.noConfusion) countQueued

theorem owns_visit (hKnown : p.queue.HoldsKnown) (a : Attributes) :
    Owns t p [.visit a] (p.visit t a) := by
  apply Dialogue.accounts_lookup
  intro reply
  cases reply with
  | error fault =>
    exact Dialogue.accounts_finish ⟨continues_visiting p, hKnown, rfl, by simp, by simp, by simp⟩
  | ok found =>
    have hTaking : Owns t p.visiting [.visit a] (taking t p.visiting a) :=
      owns_taking (p := p.visiting) hKnown a
    dsimp only
    cases freshness a found with
    | unchanged entry =>
      have hStill : (p.queue.mark entry.id).HoldsKnown := by
        rw [Queue.HoldsKnown, Queue.pending_mark]
        exact hKnown
      have hGoing : Owns t (p.visiting.confirming entry.id) [] (going _) := owns_going hStill
      have hObserved : Owns t p [.visit a] (going (p.visiting.confirming entry.id)) :=
        (hGoing.of_continues (p := p) ⟨rfl, rfl⟩).observed (by simp)
      exact hObserved.asked rfl rfl
    | stale => exact (hTaking.of_continues (continues_visiting p)).asked rfl rfl
    | new => exact (hTaking.of_continues (continues_visiting p)).asked rfl rfl

theorem owns_observe (hKnown : p.queue.HoldsKnown) (event : Event) :
    Owns t p [event] (p.observe t event) := by
  cases event with
  | visit a => exact owns_visit hKnown a
  | hidden path => exact (owns_going hKnown).observed (by simp) |>.tell _
  | leave path => exact (owns_going hKnown).observed (by simp)
  | failed path fault =>
    cases fault with
    | interrupted =>
      refine Dialogue.accounts_finish ⟨.refl p, hKnown, rfl, ?_, by simp, by simp⟩
      rintro _ ⟨⟩
      exact ⟨rfl, _, List.mem_cons_self, rfl⟩
    | failed reason text =>
      apply Dialogue.accounts_tell
      refine Dialogue.accounts_finish ⟨⟨rfl, rfl⟩, hKnown, rfl, by simp, by simp, ?_⟩
      intro hReturns other fault hFailed
      obtain ⟨rfl, rfl⟩ := Event.failed.inj (List.mem_singleton.mp hFailed)
      exact List.mem_cons_self

theorem owns_observeAll (hKnown : p.queue.HoldsKnown) (events : List Event) :
    Owns t p events (observeAll t events p) := by
  induction events generalizing p with
  | nil => exact owns_going hKnown
  | cons event events ih => exact (owns_observe hKnown event).andThen fun p' _ hStill => ih hStill

theorem owns_explore (hKnown : p.queue.HoldsKnown) (phase : Phase) :
    Owns t p (Walk.walk t p.root) (explore t { p with phase }) := by
  have hObserve : Owns t { p with phase } (Walk.walk t p.root)
      (observeAll t (Walk.walk t p.root) { p with phase }) :=
    owns_observeAll (p := { p with phase }) hKnown _
  have hBoth := (hObserve.of_continues (p := p) ⟨rfl, rfl⟩).andThen fun p' _ hStill =>
    owns_flush hStill
  rw [List.append_nil] at hBoth
  exact hBoth.tell _

theorem owns_clean (hKnown : p.queue.HoldsKnown) (ids : List Int) :
    Owns t p [] (clean ids p) := by
  induction ids generalizing p with
  | nil => exact owns_going hKnown
  | cons id ids ih =>
    rw [clean]
    split
    · exact ih hKnown
    · exact ((owns_enqueue hKnown (fun _ => Operation.noConfusion) countDeleted).andThen
        fun p' _ hStill => ih hStill).tell _

theorem owns_sweep (hKnown : p.queue.HoldsKnown) : Owns t p [] p.sweep := by
  apply Dialogue.accounts_idsUnder
  intro reply
  cases reply with
  | error fault =>
    exact Dialogue.accounts_finish ⟨.refl p, hKnown, rfl, by simp, by simp, by simp⟩
  | ok ids =>
    exact ((owns_clean hKnown ids).andThen fun p' _ hStill => owns_flush hStill).asked rfl rfl

theorem owns_finish (hKnown : p.queue.HoldsKnown) : Owns t p [] p.finish := by
  have hSweep : Owns t { p with phase := .sweeping } [] { p with phase := .sweeping }.sweep :=
    owns_sweep hKnown
  exact (hSweep.of_continues (p := p) ⟨rfl, rfl⟩).andThen fun p' _ hStill =>
    (owns_going hStill).tell p'.summary

/-- What a pass works off. -/
def reported (t : Tree) (p : Pass) : List Event :=
  match p.isHidden t with
  | .ok false => Walk.walk t p.root
  | _ => []

theorem owns_run (hNew : p.phase = .notStarted) (hKnown : p.queue.HoldsKnown) {isHidden : Bool}
    (hLocation : p.isHidden t = .ok isHidden) : Owns t p (p.reported t) (p.run t) := by
  rw [run, if_neg (not_not_intro hNew), reported, hLocation]
  cases isHidden with
  | true => exact (owns_finish hKnown).tell _
  | false =>
    have hBoth := (owns_explore (t := t) hKnown .walking).andThen fun p' _ hStill =>
      owns_finish hStill
    rw [List.append_nil] at hBoth
    exact hBoth

/-- A pass that returns has asked for the rows below its root. -/
theorem accounts_finish_swept (p : Pass) : p.finish.Accounts fun calls _ progress =>
    progress.failure = none → ∃ ids, .idsUnder p.volume p.root (.ok ids) ∈ calls := by
  refine Dialogue.accounts_andThen (Dialogue.accounts_idsUnder fun reply => ?_)
  cases reply with
  | error fault =>
    rintro s s' ⟨⟩
  | ok ids =>
    intro s s' hReturns
    exact ⟨ids, List.mem_cons_self⟩

theorem accounts_run_swept (hNew : p.phase = .notStarted) (hKnown : p.queue.HoldsKnown) :
    (p.run t).Accounts fun calls _ progress =>
      progress.failure = none → ∃ ids, .idsUnder p.volume p.root (.ok ids) ∈ calls := by
  rw [run, if_neg (not_not_intro hNew)]
  cases p.isHidden t with
  | error fault =>
    rintro s ⟨⟩
  | ok isHidden =>
    cases isHidden with
    | true => exact accounts_finish_swept p
    | false =>
      refine Dialogue.accounts_andThen ((owns_explore hKnown .walking).mono ?_)
      rintro calls notes ⟨p', failure⟩ ⟨hContinues, -, -⟩
      cases failure with
      | some stop =>
        rintro s ⟨⟩
      | none =>
        refine (accounts_finish_swept p').mono ?_
        intro more others progress hSwept hReturns
        obtain ⟨ids, hAsked⟩ := hSwept hReturns
        rw [hContinues.volume, hContinues.root] at hAsked
        exact ⟨ids, List.mem_append_right _ hAsked⟩

end Pass

/-! ## The ends of a pass -/

/-- How a pass ends, by its look at where the root lies, what it works off and what it calls. -/
structure Ended (t : Tree) (p : Pass) (calls : List Call) (notes : List Note)
    (failure : Option Failure) : Prop where
  location : ∀ fault, p.isHidden t = .error fault → failure = some (.disk fault)
  disk : ∀ fault, failure = some (.disk fault) → p.isHidden t = .error fault ∨
    fault = .interrupted ∧ ∃ event ∈ p.reported t, Interrupts t p.volume event
  stops : ∀ stop, stop.isDisk = false →
    (failure = some stop ↔ ∃ call ∈ calls, call.failure? p.root = some stop)
  batches : ∀ ops cause, .submit ops (.error cause) ∈ calls →
    ((∃ size fault, cause = .batch size fault) ∧ lossNote cause ∈ notes) ∨
      cause = .tooWide ∧ ∃ op ∈ ops, op.unfit? = some .tooWide
  told : failure = none → ∀ path fault, .failed path fault ∈ p.reported t →
    faultNote path fault ∈ notes

variable {t : Tree} {p : Pass} {calls : List Call} {notes : List Note} {failure : Option Failure}

theorem Account.ended (h : Account t p.root p.volume (p.reported t) calls notes failure)
    {isHidden : Bool} (hLocation : p.isHidden t = .ok isHidden) :
    Ended t p calls notes failure where
  location fault hFault := by
    rw [hLocation] at hFault
    cases hFault
  disk fault hFault := .inr (h.disk fault hFault)
  stops stop hOther := by
    calc failure = some stop
        ↔ stop ∈ (failure.filter (!·.isDisk)).toList := by
          rw [Option.mem_toList, Option.filter_eq_some_iff]
          simp [hOther]
      _ ↔ ∃ call ∈ calls, call.failure? p.root = some stop := by
          rw [← h.failures, List.mem_filterMap]
  batches := h.batches
  told := h.told

theorem ended_of_unseen {fault : Fault} (hLocation : p.isHidden t = .error fault) :
    Ended t p [] [] (some (.disk fault)) where
  location other hOther := by
    rw [hLocation] at hOther
    exact congrArg _ (congrArg _ (Except.error.inj hOther))
  disk other hOther := by
    obtain rfl := Failure.disk.inj (Option.some.inj hOther)
    exact .inl hLocation
  stops stop hOther := by
    refine iff_of_false ?_ (by simp)
    rintro ⟨⟩
    cases hOther
  batches := by simp
  told := by simp

theorem ended_of_run (hNew : p.phase = .notStarted) (hKnown : p.queue.HoldsKnown) (s : Store) :
    Ended t p ((p.run t).calls s) ((p.run t).run s).notes ((p.run t).run s).result.failure := by
  cases hLocation : p.isHidden t with
  | error fault =>
    rw [Pass.run, if_neg (not_not_intro hNew), hLocation]
    exact ended_of_unseen hLocation
  | ok isHidden =>
    obtain ⟨-, -, hAccount⟩ := Pass.owns_run hNew hKnown hLocation s
    exact hAccount.ended hLocation

theorem Ended.unanswered_iff (h : Ended t p calls notes failure) :
    (∀ stop, failure = some stop → stop.isUnanswered = true) ↔
      (∃ isHidden, p.isHidden t = .ok isHidden) ∧ failure ≠ some (.disk .interrupted) ∧
        ∀ ops, .submit ops (.error .tooWide) ∉ calls := by
  constructor
  · intro hUnanswered
    refine ⟨?_, ?_, ?_⟩
    · cases hLocation : p.isHidden t with
      | ok isHidden => exact ⟨isHidden, rfl⟩
      | error fault => cases hUnanswered _ (h.location fault hLocation)
    · intro hInterrupted
      cases hUnanswered _ hInterrupted
    · intro ops hCall
      cases hUnanswered _ ((h.stops (.catalog .tooWide) rfl).mpr ⟨_, hCall, rfl⟩)
  · rintro ⟨⟨isHidden, hLocation⟩, hQuiet, hNarrow⟩ stop hStop
    cases hDisk : stop.isDisk with
    | true =>
      obtain ⟨fault, rfl⟩ := Failure.exists_disk hDisk
      rcases h.disk fault hStop with hFault | ⟨rfl, -⟩
      · rw [hLocation] at hFault
        cases hFault
      · exact absurd hStop hQuiet
    | false =>
      -- The call that stopped the pass is a query, since no batch that goes on was too wide.
      obtain ⟨call, hCall, hFailure⟩ := (h.stops stop hDisk).mp hStop
      cases call with
      | lookup volume path reply =>
        cases reply with
        | ok found => cases hFailure
        | error fault => exact Option.some.inj hFailure ▸ rfl
      | idsUnder volume root reply =>
        cases reply with
        | ok ids => cases hFailure
        | error fault => exact Option.some.inj hFailure ▸ rfl
      | submit ops reply =>
        cases reply with
        | ok ids => cases hFailure
        | error cause =>
          rcases h.batches ops cause hCall with ⟨⟨size, fault, rfl⟩, -⟩ | ⟨rfl, -⟩
          · cases hFailure
          · exact absurd hCall (hNarrow ops)

/-- A pass returns, or it fails because a query is not answered, unless its look at where the root
lies fails, an interrupt is met, or a number in a batch is too wide. Each failure but those of the
disk is that of a call. Lost batches are told of, and so are the faults of single paths if the pass
returns, which has then swept. The root is one that calls take: no directory holds a name with a zero
character. -/
theorem failure_accounted {path : Path} {told : Bool} {size : Int} (_hPath : path.IsProper)
    (hStart : Pass.start t path told size = .ok p) (s : Store) :
    let calls := (p.run t).calls s
    let run := (p.run t).run s
    ((∀ failure, run.result.failure = some failure → failure.isUnanswered = true) ↔
      (∃ isHidden, p.isHidden t = .ok isHidden) ∧
        run.result.failure ≠ some (.disk .interrupted) ∧
        ∀ ops, .submit ops (.error .tooWide) ∉ calls) ∧
      (∀ fault, p.isHidden t = .error fault → run.result.failure = some (.disk fault)) ∧
      (∀ fault, run.result.failure = some (.disk fault) → p.isHidden t = .error fault ∨
        fault = .interrupted ∧ ∃ event ∈ p.reported t, Interrupts t p.volume event) ∧
      (∀ failure, failure.isDisk = false → (run.result.failure = some failure ↔
        ∃ call ∈ calls, call.failure? p.root = some failure)) ∧
      (∀ ops cause, .submit ops (.error cause) ∈ calls →
        (∃ size fault, cause = .batch size fault) ∧
            .warning ("Failed to apply: " ++ cause.message) ∈ run.notes ∨
          cause = .tooWide ∧ ∃ op ∈ ops, op.unfit? = some .tooWide) ∧
      (run.result.failure = none → (∃ ids, .idsUnder p.volume p.root (.ok ids) ∈ calls) ∧
        ∀ path fault, .failed path fault ∈ p.reported t →
          .warning ("Failed to visit " ++ path.text ++ ": " ++ fault.message) ∈ run.notes) := by
  intro calls run
  obtain ⟨hNew, -⟩ := Pass.start_eq_ok hStart
  have hKnown : p.queue.HoldsKnown := by
    rw [hNew.queue]
    intro op hOp
    cases hOp
  have hEnded : Ended t p calls run.notes run.result.failure := ended_of_run hNew.phase hKnown s
  have hSwept := Pass.accounts_run_swept (t := t) hNew.phase hKnown s
  exact ⟨hEnded.unanswered_iff, hEnded.location, hEnded.disk, hEnded.stops, hEnded.batches,
    fun hReturns => ⟨hSwept hReturns, hEnded.told hReturns⟩⟩

/-! ## Failures that are not set aside -/

/-- A directory that cannot be examined. -/
def faultyTree : Tree :=
  ⟨.plain .directory,
    [(["m"], { Node.plain .directory with statObstacle := some (.reason .ioError) })]⟩

/-- A directory that has no room for the name of the root. -/
def crampedTree : Tree := ⟨{ Node.plain .directory with refusals := [("m", .nameTooLong)] }, []⟩

/-- A directory with a file that is larger than the catalog can tell. -/
def wideTree : Tree :=
  ⟨.plain .directory, [(["m"], .plain .directory),
    (["m", "a.m3u"], { Node.plain .file with size := some 0x8000000000000000 })]⟩

def wideFile : Attributes :=
  ⟨⟨.root, ["m", "a.m3u"]⟩, 0x8000000000000000, Node.defaultTime, Node.defaultTime, false⟩

theorem faultyTree_start : Pass.start faultyTree ⟨.root, ["m"]⟩ false 32 = .ok playlistPass := by
  cbv

theorem crampedTree_start : Pass.start crampedTree ⟨.root, ["m"]⟩ false 32 = .ok playlistPass := by
  cbv

theorem wideTree_start : Pass.start wideTree ⟨.root, ["m"]⟩ false 32 = .ok playlistPass := by cbv

theorem wideTree_walk : Walk.walk wideTree playlistPass.root =
    [.visit playlistDirectory, .visit wideFile, .leave ⟨.root, ["m"]⟩] :=
  Walk.walk_of_single (by cbv) (by cbv) (by cbv)

theorem wideTree_fails :
    ((playlistPass.run wideTree).run (.ofTable .empty 0)).result.failure =
      some (.catalog .tooWide) := by
  rw [Pass.run_of_walk rfl (by cbv) wideTree_walk]
  decide +kernel

/-- None of three passes returns or fails for a query that is not answered. -/
theorem failure_accounted_faulty :
    ((playlistPass.run faultyTree).run (.ofTable .empty 0)).result.failure =
        some (.disk (.failed .ioError "/m")) ∧
      ((playlistPass.run crampedTree).run (.ofTable .empty 0)).result.failure =
        some (.disk (.failed .nameTooLong "/m")) ∧
      ∃ ops, Call.submit ops (.error .tooWide) ∈
        (playlistPass.run wideTree).calls (.ofTable .empty 0) := by
  obtain ⟨-, hFaulty, -⟩ := failure_accounted (by decide) faultyTree_start (.ofTable .empty 0)
  obtain ⟨-, hCramped, -⟩ := failure_accounted (by decide) crampedTree_start (.ofTable .empty 0)
  obtain ⟨hWide, -⟩ := failure_accounted (by decide) wideTree_start (.ofTable .empty 0)
  refine ⟨?_, ?_, ?_⟩
  · exact hFaulty _ (by cbv)
  · exact hCramped _ (by cbv)
  · by_contra hNarrow
    rw [not_exists] at hNarrow
    have hVisible : playlistPass.isHidden wideTree = .ok false := by cbv
    have hQuiet : ((playlistPass.run wideTree).run (.ofTable .empty 0)).result.failure ≠
        some (.disk .interrupted) := by
      rw [wideTree_fails]
      decide
    cases hWide.mpr ⟨⟨false, hVisible⟩, hQuiet, hNarrow⟩ _ wideTree_fails

end MediaIndex.Reconcile
