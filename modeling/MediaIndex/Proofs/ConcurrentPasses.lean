import MediaIndex.Proofs.ConcertStages
import MediaIndex.Proofs.IndependentRoots
import MediaIndex.Proofs.QuietTrees

/-!
# Passes at the same time

Two passes of one volume take turns at the catalog. Their roots are equal, or neither lies at or
below the other, or one root is visited from the other one. So whatever one of them visits at or
below the root of the other is visited by both, and no pass sweeps away what the other one has
written or confirmed. In the end they leave what they leave one after the other, in either order.
-/

namespace MediaIndex.Reconcile

open Catalog (Cell Row Store Table)
open Disk (Attributes Tree)

variable {t : Tree} {p p' p₁ p₂ : Pass} {before middle last : Table} {a b : Attributes} {m : Moment}

/-- The pass was started on a path. -/
inductive Pass.IsStarted (t : Tree) (p : Pass) : Prop
  | intro {path : Path} {told : Bool} {size : Int} (hPath : path.IsProper)
      (hStart : Pass.start t path told size = .ok p)

theorem Pass.IsStarted.isNew (h : p.IsStarted t) : ∃ size, p.IsNew size := by
  obtain ⟨-, hStart⟩ := h
  exact ⟨_, (Pass.start_eq_ok hStart).1⟩

theorem Pass.IsStarted.root (h : p.IsStarted t) : p.root.IsAbsolute := by
  obtain ⟨hPath, hStart⟩ := h
  exact (Pass.start_eq_ok hStart).2 ▸ hPath.absolute

/-- The roots of passes of one volume have one anchor. -/
theorem Pass.IsStarted.anchor_eq (h : p.IsStarted t) (h' : p'.IsStarted t)
    (hVolume : p'.volume = p.volume) : p'.root.anchor = p.root.anchor := by
  obtain ⟨hPath, hStart⟩ := h
  obtain ⟨hPath', hStart'⟩ := h'
  obtain ⟨v, hv, hAnchor, hName⟩ := Pass.exists_volume hPath hStart
  obtain ⟨v', hv', hAnchor', hName'⟩ := Pass.exists_volume hPath' hStart'
  have hSame : v' = v := hv'.text_inj hv (by rw [← hName, ← hName', hVolume])
  rw [← hAnchor, ← hAnchor', hSame]

/-! ## Clean passes -/

theorem Call.isAnswered_of_not_fatal {call : Call} (h : call.isFatal = false)
    (hLost : call.isLost = false) : call.isAnswered = true := by
  cases call with
  | lookup volume path reply => cases reply <;> simp_all [isFatal, isUnanswered, isAnswered]
  | idsUnder volume root reply => cases reply <;> simp_all [isFatal, isUnanswered, isAnswered]
  | submit ops reply =>
    cases hBatch : Call.isApplied (.submit ops reply) with
    | true => cases reply <;> simp_all [isApplied, isAnswered]
    | false => simpa [hBatch, hLost] using Call.applied_or_lost h rfl

/-- No call of a clean pass goes wrong. -/
theorem isAnswered_of_clean {path : Path} {told : Bool} {size : Int} {s : Store}
    (hTree : t.WellFormed) (hPath : path.IsProper) (hBefore : before.Sound)
    (hStart : Pass.start t path told size = .ok p) (hs : s.contents = .table before)
    (hReturns : ((p.run t).run s).result.failure = none)
    (hFailed : ((p.run t).run s).result.pass.queue.failed = 0) :
    ∀ call ∈ (p.run t).calls s, call.isAnswered = true := by
  obtain ⟨_, _, walk, sweep, _, -, hCalls, hComplete⟩ :=
    complete_of_run hTree hPath hBefore hStart hs hReturns
  obtain ⟨_, -, hRuns⟩ := Pass.ensures_run (t := t) hs (Pass.start_eq_ok hStart).1.phase
  intro call hCall
  have hLost := List.filter_eq_nil_iff.mp (hComplete.filter_isLost hFailed) call (hCalls ▸ hCall)
  exact Call.isAnswered_of_not_fatal (Pass.runs_isHarmless t hRuns hReturns call hCall)
    (Bool.eq_false_iff.mpr hLost)

/-! ## Roots of two passes -/

/-- The roots are equal, or neither lies at or below the other, or one is visited from the other. -/
inductive Together (t : Tree) (p₁ p₂ : Pass) : Prop
  | equal (h : p₂.root = p₁.root)
  | apart (h : Independent p₁ p₂)
  | inner {b : Attributes} (hb : b ∈ p₁.visited t) (h : p₂.root = b.path)
  | outer {b : Attributes} (hb : b ∈ p₂.visited t) (h : p₁.root = b.path)

theorem Together.symm (h : Together t p₁ p₂) : Together t p₂ p₁ := by
  cases h with
  | equal h => exact .equal h.symm
  | apart h => exact .apart h.symm
  | inner hb h => exact .outer hb h
  | outer hb h => exact .inner hb h

/-- The passes agree on what they both visit, and what the second one visits at or below the root
of the first one is visited by both. -/
structure Shares (t : Tree) (p p' : Pass) : Prop where
  distinct : ∀ a ∈ p.visited t, ∀ b ∈ p'.visited t, a.path.text = b.path.text → a = b
  below : ∀ r, Table.IsOf p.volume p.root r → ∀ a ∈ p'.visited t,
    r.cells .path = .text a.path.text → a ∈ p.visited t

section

variable (hTree : t.WellFormed)

include hTree

theorem Pass.eq_of_visited (hRoot : p.root.IsAbsolute) (ha : a ∈ p.visited t)
    (hb : b ∈ p.visited t) (hText : a.path.text = b.path.text) : a = b :=
  List.inj_on_of_nodup_map (Pass.nodup_visited_texts hTree hRoot) ha hb hText

/-- A pass from a visited entry visits what is visited at or below that entry. -/
theorem Pass.mem_visited_inside_iff (hClear : t.IsClear) (hb : b ∈ p.visited t)
    (hFrom : p'.root = b.path) :
    a ∈ p'.visited t ↔ a ∈ p.visited t ∧ a.path.isUnder p'.root = true := by
  obtain ⟨hVisible, hVisits⟩ := Pass.mem_visited_iff.mp hb
  rw [Pass.mem_visited_iff, Pass.mem_visited_iff, Pass.isHidden_inside hb hFrom, hVisible, hFrom,
    Walk.mem_visits_inside_iff hVisits (Walk.attributes_of_mem_visits_of_clear hClear hVisits) hTree]
  simp

theorem isUnder_of_isOf (hRoot : p.root.IsAbsolute) (hRoot' : p'.root.IsAbsolute)
    (hAnchor : p'.root.anchor = p.root.anchor) {r : Row} (hIsOf : Table.IsOf p.volume p.root r)
    (ha : a ∈ p'.visited t) (hPath : r.cells .path = .text a.path.text) :
    a.path.isUnder p.root = true := by
  obtain ⟨-, text, hText, hCovers⟩ := hIsOf
  rw [hPath, Cell.text.injEq] at hText
  have hVisits := Pass.mem_visits_of_mem_visited ha
  have hSame : a.path.anchor = p.root.anchor :=
    (Path.isUnder_iff.mp (Walk.isUnder_of_mem_visits hVisits)).1.trans hAnchor
  have hAbsolute := Walk.isAbsolute_of_mem_visits hTree hRoot' hVisits
  exact (hRoot.isRooted.covers_text_iff hAbsolute.isRooted hSame).mp (hText ▸ hCovers)

theorem Together.shares (hClear : t.IsClear) (h : p.IsStarted t) (h' : p'.IsStarted t)
    (hVolume : p'.volume = p.volume) (hTogether : Together t p p') : Shares t p p' := by
  have hRoot := h.root
  have hRoot' := h'.root
  have hInside : ∀ {r : Row}, Table.IsOf p.volume p.root r → ∀ {a}, a ∈ p'.visited t →
      r.cells .path = .text a.path.text → a.path.isUnder p.root = true :=
    fun hIsOf _ ha hPath => isUnder_of_isOf hTree hRoot hRoot' (h.anchor_eq h' hVolume) hIsOf ha
      hPath
  cases hTogether with
  | equal hSame =>
    have hVisited := Pass.visited_congr (t := t) hSame
    constructor
    · exact fun a ha b hb hText => Pass.eq_of_visited hTree hRoot ha (hVisited ▸ hb) hText
    · exact fun _ _ a ha _ => hVisited ▸ ha
  | apart hApart =>
    constructor
    · intro a ha b hb hText
      have haVisits := Pass.mem_visits_of_mem_visited ha
      have hbVisits := Pass.mem_visits_of_mem_visited hb
      have hPath := (Walk.isAbsolute_of_mem_visits hTree hRoot haVisits).text_inj
        (Walk.isAbsolute_of_mem_visits hTree hRoot' hbVisits) hText
      refine absurd (Walk.isUnder_of_mem_visits hbVisits) ?_
      exact hApart.not_isUnder (hPath ▸ Walk.isUnder_of_mem_visits haVisits)
    · intro r hIsOf a ha hPath
      refine absurd (Walk.isUnder_of_mem_visits (Pass.mem_visits_of_mem_visited ha)) ?_
      exact hApart.not_isUnder (hInside hIsOf ha hPath)
  | inner hEntry hFrom =>
    have hSubset : ∀ {a}, a ∈ p'.visited t → a ∈ p.visited t := fun ha =>
      ((Pass.mem_visited_inside_iff hTree hClear hEntry hFrom).mp ha).1
    constructor
    · exact fun a ha b hb hText => Pass.eq_of_visited hTree hRoot ha (hSubset hb) hText
    · exact fun _ _ a ha _ => hSubset ha
  | outer hEntry hFrom =>
    have hIff : ∀ {a}, a ∈ p.visited t ↔ a ∈ p'.visited t ∧ a.path.isUnder p.root = true :=
      Pass.mem_visited_inside_iff hTree hClear hEntry hFrom
    constructor
    · exact fun a ha b hb hText => Pass.eq_of_visited hTree hRoot' (hIff.mp ha).1 hb hText
    · exact fun r hIsOf a ha hPath => hIff.mpr ⟨ha, hInside hIsOf ha hPath⟩

end

/-! ## Two passes in concert -/

/-- The concert of two passes of one volume. -/
def Pass.concert (t : Tree) (p₁ p₂ : Pass) (before : Table) : Concert :=
  ⟨t, p₁.volume, before, p₁.visited t ++ p₂.visited t, [p₁.root, p₂.root]⟩

/-- Two passes that may run at the same time, from a sound table. -/
structure Concurrent (t : Tree) (p₁ p₂ : Pass) (before : Table) : Prop where
  tree : t.WellFormed
  clear : t.IsClear
  first : p₁.IsStarted t
  second : p₂.IsStarted t
  volume : p₂.volume = p₁.volume
  together : Together t p₁ p₂
  before : before.Sound

namespace Concurrent

variable (h : Concurrent t p₁ p₂ before)

include h

theorem shares : Shares t p₁ p₂ ∧ Shares t p₂ p₁ :=
  ⟨h.together.shares h.tree h.clear h.first h.second h.volume,
    h.together.symm.shares h.tree h.clear h.second h.first h.volume.symm⟩

theorem isSound : (Pass.concert t p₁ p₂ before).IsSound where
  start := h.before
  distinct a ha b hb hText := by
    rcases List.mem_append.mp ha with ha | ha <;> rcases List.mem_append.mp hb with hb | hb
    · exact Pass.eq_of_visited h.tree h.first.root ha hb hText
    · exact h.shares.1.distinct a ha b hb hText
    · exact h.shares.2.distinct a ha b hb hText
    · exact Pass.eq_of_visited h.tree h.second.root ha hb hText
  covered a ha := by
    rcases List.mem_append.mp ha with ha | ha
    · exact ⟨p₁.root, List.mem_cons_self,
        Walk.covers_of_mem_visits h.tree h.first.root (Pass.mem_visits_of_mem_visited ha)⟩
    · exact ⟨p₂.root, List.mem_cons_of_mem _ List.mem_cons_self,
        Walk.covers_of_mem_visits h.tree h.second.root (Pass.mem_visits_of_mem_visited ha)⟩

theorem plays_first : (Pass.concert t p₁ p₂ before).Plays p₁ where
  isNew := h.first.isNew
  root := h.first.root
  volume := rfl
  member := List.mem_cons_self
  visited := List.subset_append_left _ _
  below r hIsOf a ha hPath := by
    rcases List.mem_append.mp ha with ha | ha
    · exact ha
    · exact h.shares.1.below r hIsOf a ha hPath
  quiet := Pass.isQuiet_of_clear h.clear p₁

theorem plays_second : (Pass.concert t p₁ p₂ before).Plays p₂ where
  isNew := h.second.isNew
  root := h.second.root
  volume := h.volume
  member := List.mem_cons_of_mem _ List.mem_cons_self
  visited := List.subset_append_right _ _
  below r hIsOf a ha hPath := by
    rcases List.mem_append.mp ha with ha | ha
    · exact h.shares.2.below r (h.volume ▸ hIsOf) a ha hPath
    · exact ha
  quiet := Pass.isQuiet_of_clear h.clear p₂

omit h in
theorem ended (hFirst : (Pass.concert t p₁ p₂ before).Rests p₁.root (p₁.visited t) m)
    (hSecond : (Pass.concert t p₁ p₂ before).Rests p₂.root (p₂.visited t) m) :
    (Pass.concert t p₁ p₂ before).Ended m where
  since := hFirst.since
  swept r hr hGo := by
    obtain ⟨root, hRoot, hIsOf⟩ := hGo
    rcases List.mem_cons.mp hRoot with rfl | hRoot
    · exact hFirst.swept r hr hIsOf
    · obtain rfl := List.mem_singleton.mp hRoot
      exact hSecond.swept r hr hIsOf
  done a ha := by
    rcases List.mem_append.mp ha with ha | ha
    · exact hFirst.done a ha
    · exact hSecond.done a ha

end Concurrent

/-- Clean passes of a concert one after the other bring about what they have to. -/
theorem Concert.rests_of_cleanRuns {k : Concert} (hk : k.IsSound) (hTree : k.tree.WellFormed)
    (hp : k.Plays p) (hp' : k.Plays p') (h : CleanRun k.tree p k.start middle)
    (h' : CleanRun k.tree p' middle last) :
    ∃ m, m.now = last ∧ k.Rests p.root (p.visited k.tree) m ∧
      k.Rests p'.root (p'.visited k.tree) m := by
  have hMiddle := (h.leaves hTree hk.start).1
  obtain ⟨hPath, hStart, hs, hReturns, hFailed, hAfter⟩ := h
  obtain ⟨m, hLeads, hNow, -, hRests⟩ := (hp.bears_run hk).run .refl hs .trans
    (isAnswered_of_clean hTree hPath hk.start hStart hs hReturns hFailed)
  obtain rfl := Catalog.Contents.table.inj (hAfter.symm.trans hNow)
  obtain ⟨hPath', hStart', hs', hReturns', hFailed', hAfter'⟩ := h'
  obtain ⟨m', hLeads', hNow', -, hRests'⟩ :=
    ((hp'.bears_run hk).later .trans hLeads).run .refl hs' .trans
      (isAnswered_of_clean hTree hPath' hMiddle hStart' hs' hReturns' hFailed')
  obtain rfl := Catalog.Contents.table.inj (hAfter'.symm.trans hNow')
  exact ⟨m', rfl, hRests.later hk hLeads', hRests'⟩

/-- What two passes come to that take turns at a store. -/
def Pass.inTurns (t : Tree) (p₁ p₂ : Pass) (s : Store) (turns : List Turn) :
    Joint Pass.Progress Pass.Progress :=
  Joint.after ⟨p₁.run t, p₂.run t, s, []⟩ turns

/-- Whatever turns two passes take that may run at the same time, if every call is answered, a row
that was written or confirmed by either of them stays as it is. When both have ended, none has
failed, the rows of the volume at or below one of the roots are those of the paths that were written
or confirmed, and the rows are those that clean passes leave one after the other, in either order,
but for numbers and dates. -/
theorem concurrent_passes_agree (h : Concurrent t p₁ p₂ before) {s : Store} {turns : List Turn}
    (hs : s.contents = .table before)
    (hAnswered : ∀ call ∈ (Pass.inTurns t p₁ p₂ s turns).calls, call.isAnswered = true) :
    let k := Pass.concert t p₁ p₂ before
    let joint := Pass.inTurns t p₁ p₂ s turns
    (∀ earlier later, turns = earlier ++ later →
      ∀ call ∈ (Pass.inTurns t p₁ p₂ s earlier).calls, ∀ c, k.Settles c call →
        ∃ now after r, (Pass.inTurns t p₁ p₂ s earlier).store.contents = .table now ∧
          joint.store.contents = .table after ∧ now.rowOf? c = some r ∧ after.rowOf? c = some r) ∧
    ∀ progress₁ progress₂, joint.first.result? = some progress₁ →
      joint.second.result? = some progress₂ →
      progress₁.failure = none ∧ progress₂.failure = none ∧
      ∃ after, joint.store.contents = .table after ∧ after.Sound ∧
        (∀ c, (∃ r ∈ after.rows, k.MayGo r ∧ r.cells .path = c) ↔
          ∃ call ∈ joint.calls, k.Settles c call) ∧
        ∀ middle last,
          (CleanRun t p₁ before middle ∧ CleanRun t p₂ middle last ∨
            CleanRun t p₂ before middle ∧ CleanRun t p₁ middle last) →
          (after.rows.map (·.cells)).Perm (last.rows.map (·.cells)) := by
  intro k joint
  have hk := h.isSound
  have hStart := Joint.Stands.mk (j := ⟨p₁.run t, p₂.run t, s, []⟩) (m := k.begin) rfl hs
    (h.plays_first.bears_run hk) (h.plays_second.bears_run hk)
  constructor
  · rintro earlier later rfl call hCall c hSettles
    obtain ⟨m, m', hLeads, hStands, hLeads', hStands'⟩ :=
      hStart.between .refl .trans earlier later hAnswered
    obtain ⟨r, hRow⟩ := hLeads.exists_settled (hStands.calls ▸ hCall) hSettles
    exact ⟨m.now, m'.now, r, hStands.contents, hStands'.contents, hRow.1,
      (hLeads'.moves.settled hRow).1⟩
  · intro progress₁ progress₂ hFirst hSecond
    obtain ⟨m, hLeads, hStands⟩ := hStart.after .refl .trans turns hAnswered
    obtain ⟨hGoing₁, hRests₁⟩ := hStands.first.result .refl hFirst
    obtain ⟨hGoing₂, hRests₂⟩ := hStands.second.result .refl hSecond
    have hEnded := Concurrent.ended hRests₁ hRests₂
    refine ⟨hGoing₁, hGoing₂, m.now, hStands.contents, hEnded.sound hk, fun c => ?_,
      fun middle last hRuns => ?_⟩
    · rw [show joint.calls = m.calls from hStands.calls]
      exact hEnded.exists_row_iff hk
    · obtain ⟨m', rfl, hLast₁, hLast₂⟩ : ∃ m', m'.now = last ∧
          k.Rests p₁.root (p₁.visited t) m' ∧ k.Rests p₂.root (p₂.visited t) m' := by
        rcases hRuns with ⟨hRun, hNext⟩ | ⟨hRun, hNext⟩
        · exact Concert.rests_of_cleanRuns hk h.tree h.plays_first h.plays_second hRun hNext
        · obtain ⟨m', hNow, hLast₂, hLast₁⟩ :=
            Concert.rests_of_cleanRuns hk h.tree h.plays_second h.plays_first hRun hNext
          exact ⟨m', hNow, hLast₁, hLast₂⟩
      exact (Concurrent.ended hLast₁ hLast₂).perm_cells hk hEnded

/-! ## A directory and a file in it -/

/-- A directory with a file that makes no record. -/
def noteTree : Tree :=
  ⟨.plain .directory, [(["m"], .plain .directory), (["m", "a.txt"], .plain .file)]⟩

def noteFile : Attributes :=
  ⟨⟨.root, ["m", "a.txt"]⟩, 0, Disk.Node.defaultTime, Disk.Node.defaultTime, false⟩

def notePass : Pass := { playlistPass with root := ⟨.root, ["m", "a.txt"]⟩ }

/-- A table with a row for the file all the same. -/
def noteTable : Table := ⟨[outdatedRow 1 "/m/a.txt"], 1⟩

theorem noteTree_wellFormed : noteTree.WellFormed := ⟨by decide, by decide⟩

theorem noteTable_sound : noteTable.Sound := ⟨by decide, by decide, by decide⟩

theorem folder_started : Pass.start noteTree ⟨.root, ["m"]⟩ false 32 = .ok playlistPass := by cbv

theorem note_started : Pass.start noteTree ⟨.root, ["m", "a.txt"]⟩ false 32 = .ok notePass := by cbv

theorem note_walked : playlistPass.Reports noteTree
    [.visit playlistDirectory, .visit noteFile, .leave ⟨.root, ["m"]⟩] :=
  ⟨by cbv, Walk.walk_of_single (by cbv) (by cbv) (by cbv), by decide +kernel⟩

theorem note_visited : notePass.Reports noteTree [.visit noteFile] :=
  ⟨by cbv, Walk.walk_of_closed (by cbv) (by cbv), by decide +kernel⟩

theorem note_concurrent : Concurrent noteTree playlistPass notePass noteTable where
  tree := noteTree_wellFormed
  clear := ⟨by decide, by decide⟩
  first := ⟨playlist_isProper, folder_started⟩
  second := ⟨by decide, note_started⟩
  volume := rfl
  together := .inner (b := noteFile) (by simp [note_walked.visited, Walk.Event.visited?]) rfl
  before := noteTable_sound

/-- The passes take turns, and each of them makes its calls between those of the other one. -/
def alternating : List Turn := (List.replicate 4 [.first, .second]).flatten

theorem alternating_ends :
    let joint := Pass.inTurns noteTree playlistPass notePass (.ofTable noteTable 0) alternating
    (∀ call ∈ joint.calls, call.isAnswered = true) ∧ joint.first.result?.isSome = true ∧
      joint.second.result?.isSome = true := by
  rw [Pass.inTurns, Pass.run_of_walk rfl note_walked.visible note_walked.walk,
    Pass.run_of_walk rfl note_visited.visible note_visited.walk]
  decide +kernel

theorem concurrent_passes_agree_note : ∃ after middle last,
    (Pass.inTurns noteTree playlistPass notePass (.ofTable noteTable 0) alternating).store.contents =
        .table after ∧
      CleanRun noteTree playlistPass noteTable middle ∧ CleanRun noteTree notePass middle last ∧
      (after.rows.map (·.cells)).Perm (last.rows.map (·.cells)) := by
  have hNumbered : noteTable.Numbered 1 := ⟨by decide, by decide, by decide⟩
  obtain ⟨middle, hRun, hMiddle, hCounted⟩ := cleanRun_of_healthy noteTree_wellFormed
    playlist_isProper noteTable_sound folder_started note_walked.quiet note_walked.storable
    hNumbered (by decide)
  rw [note_walked.visited] at hCounted
  obtain ⟨last, hNext, -⟩ := cleanRun_of_healthy noteTree_wellFormed (by decide) hMiddle
    note_started note_visited.quiet note_visited.storable hCounted (by decide)
  obtain ⟨hAnswered, hFirst, hSecond⟩ := alternating_ends
  obtain ⟨progress₁, hFirst⟩ := Option.isSome_iff_exists.mp hFirst
  obtain ⟨progress₂, hSecond⟩ := Option.isSome_iff_exists.mp hSecond
  obtain ⟨-, hEnds⟩ := concurrent_passes_agree note_concurrent rfl hAnswered
  obtain ⟨-, -, after, hAfter, -, -, hAgree⟩ := hEnds progress₁ progress₂ hFirst hSecond
  exact ⟨after, middle, last, hAfter, hRun, hNext, hAgree middle last (.inl ⟨hRun, hNext⟩)⟩

end MediaIndex.Reconcile
