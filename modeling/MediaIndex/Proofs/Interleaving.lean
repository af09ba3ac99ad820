import MediaIndex.Proofs.Calls
import MediaIndex.Reconcile.Pass

/-!
# Dialogues in turns

Two dialogues that share a store take turns at it, one call at a time, in any order. Between two
calls of one of them the other may have changed the table, so a law of a dialogue says what it
bears: whatever is allowed to happen before each of its calls, the call itself does no more than
what is allowed. What two dialogues bear that allow each other the same is kept by every
interleaving of their calls, and also by each of them run by itself.
-/

namespace MediaIndex.Reconcile

open Catalog (Entry Operation Store StoreFault Table)

/-- The call was answered, or the batch applied. -/
def Call.isAnswered : Call → Bool
  | .lookup _ _ (.ok _) => true
  | .idsUnder _ _ (.ok _) => true
  | .submit _ (.ok _) => true
  | _ => false

/-- The calls made so far, by whomever, and the table they have led to. -/
structure Moment where
  calls : List Call
  now : Table

def Moment.after (m : Moment) (call : Call) (later : Table) : Moment :=
  ⟨m.calls ++ [call], later⟩

namespace Dialogue

variable {α β : Type}

/-- The call that the next step makes. -/
def call? : Dialogue α → Store → Option Call
  | finish _, _ => none
  | tell _ next, s => next.call? s
  | lookup volume path _, s => some (.lookup volume path (s.lookup volume path).1)
  | idsUnder volume root _, s => some (.idsUnder volume root (s.idsUnder volume root).1)
  | submit ops _, s => some (.submit ops (s.submit ops).1)

/-- What a dialogue has come to that makes no more calls. -/
def result? : Dialogue α → Option α
  | finish a => some a
  | tell _ next => next.result?
  | _ => none

/-- Whatever is allowed to happen before each call, the call is allowed if it is answered, and what
the dialogue comes to has a property from then on. -/
def Bears (allowed : Moment → Moment → Prop) (post : α → Moment → Prop) :
    Dialogue α → Moment → Prop
  | finish a, m => ∀ m', allowed m m' → post a m'
  | tell _ next, m => next.Bears allowed post m
  | lookup volume path next, m => ∀ m', allowed m m' →
    let reply := .ok (m'.now.lookup volume path)
    let m'' := m'.after (.lookup volume path reply) m'.now
    allowed m' m'' ∧ (next reply).Bears allowed post m''
  | idsUnder volume root next, m => ∀ m', allowed m m' →
    let reply := .ok (m'.now.idsUnder volume root)
    let m'' := m'.after (.idsUnder volume root reply) m'.now
    allowed m' m'' ∧ (next reply).Bears allowed post m''
  | submit ops next, m => ∀ m', allowed m m' → ∀ barrier clock ids later,
    m'.now.applyAll barrier clock ops = .ok (later, ids) →
    let m'' := m'.after (.submit ops (.ok ids)) later
    allowed m' m'' ∧ (next (.ok ids)).Bears allowed post m''

variable {allowed : Moment → Moment → Prop} {m m' : Moment} {s : Store}

section

variable {post : α → Moment → Prop} {d : Dialogue α}

theorem Bears.mono {weaker : α → Moment → Prop} (h : d.Bears allowed post m)
    (hWeaker : ∀ a m, post a m → weaker a m) : d.Bears allowed weaker m := by
  induction d generalizing m with
  | finish a => exact fun m' hAllowed => hWeaker a m' (h m' hAllowed)
  | tell note next ih => exact ih h
  | lookup volume path next ih =>
    intro m' hAllowed
    exact ⟨(h m' hAllowed).1, ih _ (h m' hAllowed).2⟩
  | idsUnder volume root next ih =>
    intro m' hAllowed
    exact ⟨(h m' hAllowed).1, ih _ (h m' hAllowed).2⟩
  | submit ops next ih =>
    intro m' hAllowed barrier clock ids later hApply
    obtain ⟨hCall, hNext⟩ := h m' hAllowed barrier clock ids later hApply
    exact ⟨hCall, ih _ hNext⟩

theorem bears_tellAll {notes : List Note} {next : Dialogue α} :
    (tellAll notes next).Bears allowed post m ↔ next.Bears allowed post m := by
  induction notes with
  | nil => exact Iff.rfl
  | cons note notes ih => exact ih

/-- What a dialogue bears it goes on bearing while it waits for its turn. -/
theorem Bears.later (hTrans : ∀ {m m' m''}, allowed m m' → allowed m' m'' → allowed m m'')
    (h : d.Bears allowed post m) (hAllowed : allowed m m') : d.Bears allowed post m' := by
  induction d with
  | finish a => exact fun m'' hRest => h m'' (hTrans hAllowed hRest)
  | tell note next ih => exact ih h
  | lookup volume path next ih => exact fun m'' hRest => h m'' (hTrans hAllowed hRest)
  | idsUnder volume root next ih => exact fun m'' hRest => h m'' (hTrans hAllowed hRest)
  | submit ops next ih => exact fun m'' hRest => h m'' (hTrans hAllowed hRest)

end

section

variable (hRefl : ∀ m, allowed m m)

include hRefl

theorem Bears.andThen {d : Dialogue α} {f : α → Dialogue β} {post : β → Moment → Prop}
    (h : d.Bears allowed (fun a m => (f a).Bears allowed post m) m) :
    (d.andThen f).Bears allowed post m := by
  induction d generalizing m with
  | finish a => exact h m (hRefl m)
  | tell note next ih => exact ih h
  | lookup volume path next ih =>
    intro m' hAllowed
    exact ⟨(h m' hAllowed).1, ih _ (h m' hAllowed).2⟩
  | idsUnder volume root next ih =>
    intro m' hAllowed
    exact ⟨(h m' hAllowed).1, ih _ (h m' hAllowed).2⟩
  | submit ops next ih =>
    intro m' hAllowed barrier clock ids later hApply
    obtain ⟨hCall, hNext⟩ := h m' hAllowed barrier clock ids later hApply
    exact ⟨hCall, ih _ hNext⟩

theorem Bears.result {d : Dialogue α} {post : α → Moment → Prop} (h : d.Bears allowed post m)
    {a : α} (hResult : d.result? = some a) : post a m := by
  induction d with
  | finish b => exact Option.some.inj hResult ▸ h m (hRefl m)
  | tell note next ih => exact ih h hResult
  | lookup volume path next => cases hResult
  | idsUnder volume root next => cases hResult
  | submit ops next => cases hResult

/-! ## Calls that are made -/

variable {post : α → Moment → Prop} (hs : s.contents = .table m.now)

include hs

theorem Bears.of_lookup {volume : String} {path : Path}
    {next : Except StoreFault (Option Entry) → Dialogue α}
    (h : (lookup volume path next).Bears allowed post m)
    (hAnswered : (Call.lookup volume path (s.lookup volume path).1).isAnswered = true) :
    ∃ m', allowed m m' ∧
      m'.calls = m.calls ++ [.lookup volume path (s.lookup volume path).1] ∧
      (s.lookup volume path).2.contents = .table m'.now ∧
      (next (s.lookup volume path).1).Bears allowed post m' := by
  cases hReply : (s.lookup volume path).1 with
  | error fault =>
    rw [hReply] at hAnswered
    cases hAnswered
  | ok found =>
    obtain rfl := query_eq_ok hs hReply
    obtain ⟨hCall, hNext⟩ := h m (hRefl m)
    exact ⟨_, hCall, rfl, hs, hNext⟩

theorem Bears.of_idsUnder {volume : String} {root : Path}
    {next : Except StoreFault (List Int) → Dialogue α}
    (h : (idsUnder volume root next).Bears allowed post m)
    (hAnswered : (Call.idsUnder volume root (s.idsUnder volume root).1).isAnswered = true) :
    ∃ m', allowed m m' ∧
      m'.calls = m.calls ++ [.idsUnder volume root (s.idsUnder volume root).1] ∧
      (s.idsUnder volume root).2.contents = .table m'.now ∧
      (next (s.idsUnder volume root).1).Bears allowed post m' := by
  cases hReply : (s.idsUnder volume root).1 with
  | error fault =>
    rw [hReply] at hAnswered
    cases hAnswered
  | ok ids =>
    obtain rfl := query_eq_ok hs hReply
    obtain ⟨hCall, hNext⟩ := h m (hRefl m)
    exact ⟨_, hCall, rfl, hs, hNext⟩

theorem Bears.of_submit {ops : List Operation}
    {next : Except Catalog.Failure (List (Option Int)) → Dialogue α}
    (h : (submit ops next).Bears allowed post m)
    (hAnswered : (Call.submit ops (s.submit ops).1).isAnswered = true) :
    ∃ m', allowed m m' ∧ m'.calls = m.calls ++ [.submit ops (s.submit ops).1] ∧
      (s.submit ops).2.contents = .table m'.now ∧
      (next (s.submit ops).1).Bears allowed post m' := by
  rcases submit_cases hs ops with
    ⟨ids, later, barrier, clock, hReply, hApply, hContents⟩ | ⟨failure, hReply, -⟩
  · rw [hReply]
    obtain ⟨hCall, hNext⟩ := h m (hRefl m) barrier clock ids later hApply
    exact ⟨_, hCall, rfl, hContents, hNext⟩
  · rw [hReply] at hAnswered
    cases hAnswered

/-- A step that a dialogue bears is allowed. -/
theorem Bears.step {d : Dialogue α} (h : d.Bears allowed post m)
    (hAnswered : ∀ call ∈ d.call? s, call.isAnswered = true) :
    ∃ m', allowed m m' ∧ m'.calls = m.calls ++ (d.call? s).toList ∧
      (d.step s).store.contents = .table m'.now ∧
      (d.step s).result.Bears allowed post m' := by
  induction d with
  | finish a => exact ⟨m, hRefl m, (List.append_nil _).symm, hs, h⟩
  | tell note next ih => exact ih h hAnswered
  | lookup volume path next ih => exact h.of_lookup hRefl hs (hAnswered _ rfl)
  | idsUnder volume root next ih => exact h.of_idsUnder hRefl hs (hAnswered _ rfl)
  | submit ops next ih => exact h.of_submit hRefl hs (hAnswered _ rfl)

/-- A dialogue that is run by itself comes to what it bears. -/
theorem Bears.run (hTrans : ∀ {m m' m''}, allowed m m' → allowed m' m'' → allowed m m'')
    {d : Dialogue α} (h : d.Bears allowed post m)
    (hAnswered : ∀ call ∈ d.calls s, call.isAnswered = true) :
    ∃ m', allowed m m' ∧ (d.run s).store.contents = .table m'.now ∧
      post (d.run s).result m' := by
  induction d generalizing m s with
  | finish a => exact ⟨m, hRefl m, hs, h m (hRefl m)⟩
  | tell note next ih => exact ih hs h hAnswered
  | lookup volume path next ih =>
    obtain ⟨hFirst, hRest⟩ := List.forall_mem_cons.mp hAnswered
    obtain ⟨m', hCall, -, hContents, hNext⟩ := h.of_lookup hRefl hs hFirst
    obtain ⟨m'', hLater, hEnd⟩ := ih _ hContents hNext hRest
    exact ⟨m'', hTrans hCall hLater, hEnd⟩
  | idsUnder volume root next ih =>
    obtain ⟨hFirst, hRest⟩ := List.forall_mem_cons.mp hAnswered
    obtain ⟨m', hCall, -, hContents, hNext⟩ := h.of_idsUnder hRefl hs hFirst
    obtain ⟨m'', hLater, hEnd⟩ := ih _ hContents hNext hRest
    exact ⟨m'', hTrans hCall hLater, hEnd⟩
  | submit ops next ih =>
    obtain ⟨hFirst, hRest⟩ := List.forall_mem_cons.mp hAnswered
    obtain ⟨m', hCall, -, hContents, hNext⟩ := h.of_submit hRefl hs hFirst
    obtain ⟨m'', hLater, hEnd⟩ := ih _ hContents hNext hRest
    exact ⟨m'', hTrans hCall hLater, hEnd⟩

end

end Dialogue

/-! ## Two dialogues -/

inductive Turn where
  | first
  | second
  deriving DecidableEq

/-- Two dialogues with one store, and the calls that they have made so far. -/
structure Joint (α β : Type) where
  first : Dialogue α
  second : Dialogue β
  store : Store
  calls : List Call

namespace Joint

variable {α β : Type}

/-- One of the dialogues makes its next call. One that has finished does nothing. -/
def take (j : Joint α β) : Turn → Joint α β
  | .first =>
    let run := j.first.step j.store
    { j with first := run.result, store := run.store
             calls := j.calls ++ (j.first.call? j.store).toList }
  | .second =>
    let run := j.second.step j.store
    { j with second := run.result, store := run.store
             calls := j.calls ++ (j.second.call? j.store).toList }

def after (j : Joint α β) (turns : List Turn) : Joint α β := turns.foldl take j

theorem after_append (j : Joint α β) (turns more : List Turn) :
    j.after (turns ++ more) = (j.after turns).after more :=
  List.foldl_append

theorem calls_subset_take (j : Joint α β) (turn : Turn) : j.calls ⊆ (j.take turn).calls := by
  cases turn <;> exact List.subset_append_left _ _

theorem calls_subset_after (j : Joint α β) (turns : List Turn) :
    j.calls ⊆ (j.after turns).calls := by
  induction turns generalizing j with
  | nil => exact List.Subset.refl _
  | cons turn turns ih => exact List.Subset.trans (j.calls_subset_take turn) (ih _)

/-- The dialogues have come to a moment from which both bear what is allowed. -/
structure Stands (allowed : Moment → Moment → Prop) (post : α → Moment → Prop)
    (post' : β → Moment → Prop) (j : Joint α β) (m : Moment) : Prop where
  calls : j.calls = m.calls
  contents : j.store.contents = .table m.now
  first : j.first.Bears allowed post m
  second : j.second.Bears allowed post' m

section

variable {allowed : Moment → Moment → Prop} {post : α → Moment → Prop}
  {post' : β → Moment → Prop} {j : Joint α β} {m : Moment} (hRefl : ∀ m, allowed m m)
  (hTrans : ∀ {m m' m''}, allowed m m' → allowed m' m'' → allowed m m'')

include hRefl hTrans

theorem Stands.take (h : j.Stands allowed post post' m) (turn : Turn)
    (hAnswered : ∀ call ∈ (j.take turn).calls, call.isAnswered = true) :
    ∃ m', allowed m m' ∧ (j.take turn).Stands allowed post post' m' := by
  cases turn with
  | first =>
    obtain ⟨m', hAllowed, hCalls, hContents, hFirst⟩ := h.first.step hRefl h.contents
      fun call hCall => hAnswered call (List.mem_append_right _ (by simpa using hCall))
    refine ⟨m', hAllowed, ?_, hContents, hFirst, h.second.later hTrans hAllowed⟩
    rw [hCalls, ← h.calls]
    rfl
  | second =>
    obtain ⟨m', hAllowed, hCalls, hContents, hSecond⟩ := h.second.step hRefl h.contents
      fun call hCall => hAnswered call (List.mem_append_right _ (by simpa using hCall))
    refine ⟨m', hAllowed, ?_, hContents, h.first.later hTrans hAllowed, hSecond⟩
    rw [hCalls, ← h.calls]
    rfl

/-- Whatever turns two dialogues take, what has come about is allowed. -/
theorem Stands.after (h : j.Stands allowed post post' m) (turns : List Turn)
    (hAnswered : ∀ call ∈ (j.after turns).calls, call.isAnswered = true) :
    ∃ m', allowed m m' ∧ (j.after turns).Stands allowed post post' m' := by
  induction turns generalizing j m with
  | nil => exact ⟨m, hRefl m, h⟩
  | cons turn turns ih =>
    obtain ⟨m', hAllowed, h'⟩ := h.take hRefl hTrans turn fun call hCall =>
      hAnswered call (calls_subset_after _ turns hCall)
    obtain ⟨m'', hRest, h''⟩ := ih h' hAnswered
    exact ⟨m'', hTrans hAllowed hRest, h''⟩

/-- What stands at one point of the turns and what stands at a later one. -/
theorem Stands.between (h : j.Stands allowed post post' m) (earlier later : List Turn)
    (hAnswered : ∀ call ∈ (j.after (earlier ++ later)).calls, call.isAnswered = true) :
    ∃ m' m'', allowed m m' ∧ (j.after earlier).Stands allowed post post' m' ∧ allowed m' m'' ∧
      (j.after (earlier ++ later)).Stands allowed post post' m'' := by
  rw [after_append] at hAnswered ⊢
  obtain ⟨m', hAllowed, hStands⟩ := h.after hRefl hTrans earlier fun call hCall =>
    hAnswered call (calls_subset_after _ later hCall)
  obtain ⟨m'', hRest, hLater⟩ := hStands.after hRefl hTrans later hAnswered
  exact ⟨m', m'', hAllowed, hStands, hRest, hLater⟩

end

end Joint

namespace Pass

/-- A stage that is not stopped goes on with the next one. -/
theorem bears_andThen {allowed : Moment → Moment → Prop} (hRefl : ∀ m, allowed m m)
    {d : Dialogue Progress} {next : Pass → Dialogue Progress} {post : Progress → Moment → Prop}
    {m : Moment} (h : d.Bears allowed (fun progress m => progress.failure = none ∧
      (next progress.pass).Bears allowed post m) m) :
    (Progress.andThen d next).Bears allowed post m := by
  refine (h.mono ?_).andThen hRefl
  rintro ⟨p, failure⟩ m ⟨hGoing, hNext⟩
  obtain rfl : failure = none := hGoing
  exact hNext

end Pass

end MediaIndex.Reconcile
