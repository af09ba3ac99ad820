import Mathlib.Data.Set.Card
import MediaIndex.Proofs.SkipReports

/-!
# The accounts of a pass

The numbers that a pass tells in the end are true of the catalog. A pass that returns and loses no
batch leaves one row at or below its root for each entry that it counts as unchanged or queued, and
has deleted all other rows that were there before it swept. What it visited beyond that it has told
as skipped, or it has no category.
-/

namespace MediaIndex.Reconcile

open Catalog (Cell Operation Row Store Table)
open Disk (Attributes Tree)

/-! ## Counting rows -/

/-- The rows of a volume at or below a root. -/
def rowsOf (table : Table) (volume : String) (root : Path) : Set Row :=
  {r | r ∈ table.rows ∧ Table.IsOf volume root r}

theorem ncard_eq_length {α κ : Type} {S : Set α} {f : α → κ} (hInjective : S.InjOn f)
    {keys : List κ} (hDistinct : keys.Nodup) (hKeys : ∀ k, k ∈ keys ↔ ∃ a ∈ S, f a = k) :
    S.ncard = keys.length := by
  classical
  have hImage : f '' S = (keys.toFinset : Set κ) := by
    ext k
    simp [hKeys]
  rw [← hInjective.ncard_image, hImage, Set.ncard_coe_finset,
    List.toFinset_card_of_nodup hDistinct]

theorem injOn_id {table : Table} (h : table.Sound) (volume : String) (root : Path) :
    (rowsOf table volume root).InjOn (·.id) :=
  fun _ hr _ hs hId => h.eq_of_id_eq hr.1 hs.1 hId

theorem injOn_path {table : Table} (h : table.Sound) (volume : String) (root : Path) :
    (rowsOf table volume root).InjOn fun r => r.cells .path :=
  fun _ hr _ hs hPath => h.eq_of_path_eq hr.1 hs.1 hPath

theorem nodup_idsUnder {table : Table} (h : table.Sound) (volume : String) (root : Path) :
    (table.idsUnder volume root).Nodup := by
  rw [Table.idsUnder, (List.mergeSort_perm _ _).nodup_iff]
  have hIds : (table.rows.map (·.id)).Nodup := h.increasing.imp fun hLt => hLt.ne
  exact hIds.sublist (List.filter_sublist.map _)

/-- The entry is kept or taken in. -/
def Standing.isSettled (s : Standing) : Bool := s.isKept || s.isTaken

theorem isSettled_iff {s : Standing} : s.isSettled = true ↔ s ≠ .passed := by
  cases s <;> simp [Standing.isSettled, Standing.isKept, Standing.isTaken]

theorem countP_isSettled (standings : Attributes → Standing) (entries : List Attributes) :
    entries.countP (fun a => (standings a).isSettled) =
      entries.countP (fun a => (standings a).isKept) +
        entries.countP (fun a => (standings a).isTaken) := by
  induction entries with
  | nil => rfl
  | cons a entries ih =>
    simp only [List.countP_cons, ih]
    cases standings a <;> simp [Standing.isSettled, Standing.isKept, Standing.isTaken] <;> omega

section

variable {t : Tree} {p : Pass} {before middle after : Table} {walk sweep : List Call}
  {half full : Queue} (h : Complete t p before middle after walk sweep half full)

include h

theorem Complete.erased_iff (hFailed : full.failed = 0) {id : Int} :
    id ∈ erased sweep ↔ id ∈ middle.idsUnder p.volume p.root ∧ id ∉ half.scanned := by
  rw [mem_erased_iff, (h.applied_eq hFailed).2, h.operations_sweep]
  simp

/-- A sweep takes the rows of the volume at or below the root that do not count as scanned. -/
theorem Complete.mem_rowsOf_iff (hRoot : p.root.IsAbsolute) (hFailed : full.failed = 0) {r : Row} :
    r ∈ rowsOf after p.volume p.root ↔
      r ∈ rowsOf middle p.volume p.root ∧ r.id ∈ half.scanned := by
  have hMiddle := h.writes.sound
  have hAfter := h.swept.erases.sound
  constructor
  · rintro ⟨hr, hIsOf⟩
    obtain ⟨hRow, hNotErased⟩ := h.rowOf?_after_iff.mp (hAfter.rowOf?_of_mem hr)
    have hMem := (Table.mem_of_rowOf?_eq_some hRow).1
    refine ⟨⟨hMem, hIsOf⟩, ?_⟩
    by_contra hStray
    exact hNotErased ((h.erased_iff hFailed).mpr
      ⟨(Table.mem_idsUnder hRoot.zero_notMem_text).mpr ⟨r, hMem, hIsOf, rfl⟩, hStray⟩)
  · rintro ⟨⟨hr, hIsOf⟩, hScanned⟩
    refine ⟨?_, hIsOf⟩
    have hRow := h.rowOf?_after_iff.mpr ⟨hMiddle.rowOf?_of_mem hr, fun hErased =>
      ((h.erased_iff hFailed).mp hErased).2 hScanned⟩
    exact (Table.mem_of_rowOf?_eq_some hRow).1

/-- What the sweep deletes and what is there after it make up what was there before it. -/
theorem Complete.ncard_middle (hRoot : p.root.IsAbsolute) (hFailed : full.failed = 0) :
    ((middle.idsUnder p.volume p.root).filter (· ∉ half.scanned)).length +
      (rowsOf after p.volume p.root).ncard = (rowsOf middle p.volume p.root).ncard := by
  have hNodup := nodup_idsUnder h.writes.sound p.volume p.root
  have hMiddle := ncard_eq_length (injOn_id h.writes.sound p.volume p.root) hNodup fun id =>
    (Table.mem_idsUnder hRoot.zero_notMem_text).trans
      ⟨fun ⟨r, hr, hIsOf, hId⟩ => ⟨r, ⟨hr, hIsOf⟩, hId⟩,
        fun ⟨r, ⟨hr, hIsOf⟩, hId⟩ => ⟨r, hr, hIsOf, hId⟩⟩
  have hAfter := ncard_eq_length (injOn_id h.swept.erases.sound p.volume p.root)
    (hNodup.filter (· ∈ half.scanned)) fun id => by
      simp only [List.mem_filter, decide_eq_true_eq, Table.mem_idsUnder hRoot.zero_notMem_text,
        h.mem_rowsOf_iff hRoot hFailed]
      constructor
      · rintro ⟨⟨r, hr, hIsOf, rfl⟩, hScanned⟩
        exact ⟨r, ⟨⟨hr, hIsOf⟩, hScanned⟩, rfl⟩
      · rintro ⟨r, ⟨⟨hr, hIsOf⟩, hScanned⟩, rfl⟩
        exact ⟨⟨r, hr, hIsOf, rfl⟩, hScanned⟩
  rw [hMiddle, hAfter, Nat.add_comm]
  have hSplit := List.length_eq_length_filter_add (l := middle.idsUnder p.volume p.root)
    (fun id => decide (id ∈ half.scanned))
  simpa using hSplit.symm

/-- There is one row for each entry that is kept or taken in. -/
theorem Complete.ncard_after (hTree : t.WellFormed) (hBefore : before.Sound)
    (hRoot : p.root.IsAbsolute) (hFailed : full.failed = 0) :
    (rowsOf after p.volume p.root).ncard =
      (p.visited t).countP (fun a => (standing t p.volume before a).isKept) +
        (p.visited t).countP (fun a => (standing t p.volume before a).isTaken) := by
  rw [← countP_isSettled, List.countP_eq_length_filter,
    ← List.length_map (f := fun a : Attributes => Cell.text a.path.text)]
  refine ncard_eq_length (injOn_path h.swept.erases.sound p.volume p.root) ?_ fun c => ?_
  · have hCells := h.distinct.map (f := Cell.text) fun _ _ hEq => Cell.text.inj hEq
    rw [List.map_map] at hCells
    exact hCells.sublist (List.filter_sublist.map _)
  · simp only [List.mem_map, List.mem_filter, isSettled_iff]
    constructor
    · rintro ⟨a, ⟨ha, hStanding⟩, rfl⟩
      have hConfirmed := (h.confirmed_iff hFailed ha).mpr hStanding
      obtain ⟨r, hMiddle, hIsOf, -⟩ := h.exists_rowDue hTree hBefore hRoot ha hConfirmed
      obtain ⟨hr, hPath⟩ := Table.mem_of_rowOf?_eq_some (h.after_of_confirmed ha hConfirmed hMiddle)
      exact ⟨r, ⟨hr, hIsOf⟩, hPath⟩
    · rintro ⟨r, ⟨hr, hIsOf⟩, rfl⟩
      obtain ⟨a, ha, hPath, hConfirmed⟩ := h.confirmed_of_isOf hBefore hRoot hFailed hr hIsOf
      exact ⟨a, ⟨ha, (h.confirmed_iff hFailed ha).mp hConfirmed⟩, hPath.symm⟩

end

/-! ## Up to the sweep -/

namespace Pass

/-- What a pass does before it sweeps. -/
def approach (t : Tree) (p : Pass) : Dialogue Progress :=
  match p.isHidden t with
  | .error fault => stopped p (.disk fault)
  | .ok true => .tell (.info ("Skipping hidden location " ++ p.root.text)) (going p)
  | .ok false => explore t { p with phase := .walking }

variable {t : Tree} {p : Pass} {before middle after : Table} {s : Store} {size : Int}

theorem run_eq_approach (hNew : p.phase = .notStarted) :
    p.run t = Progress.andThen (p.approach t) finish := by
  rw [run, if_neg (not_not_intro hNew), approach]
  cases p.isHidden t with
  | error fault => rfl
  | ok isHidden => cases isHidden <;> rfl

/-- A pass that is about to sweep, over the table after its walk. -/
structure Approached (t : Tree) (p : Pass) (before middle : Table) (walk : List Call)
    (half : Pass) : Prop where
  continues : p.Continues half
  walked : Walked t p.volume before (p.visited t) walk half.queue middle
  flushed : half.queue.pending = []
  harmless : ∀ call ∈ walk, call.isFatal = false
  visited : half.tally.visited = (p.visited t).length
  unchanged : half.tally.unchanged =
    (p.visited t).countP fun a => (standing t p.volume before a).isKept
  queued : half.tally.queued =
    (p.visited t).countP fun a => (standing t p.volume before a).isTaken
  deleted : half.tally.deleted = 0

theorem approached_of_hidden (hBefore : before.Sound) (hNew : p.IsNew size)
    (hs : s.contents = .table before) (hHidden : p.isHidden t = .ok true) :
    ∃ middle walk, ((p.approach t).run s).store.contents = .table middle ∧
      Approached t p before middle walk ((p.approach t).run s).result.pass ∧
      skips ((p.approach t).run s).notes =
        (p.visited t).filterMap (skip? t p.volume before) := by
  have hVisited : p.visited t = [] := by rw [visited, hHidden]
  have hNil : Walked t p.volume before [] [] p.queue before := by
    rw [hNew.queue]
    exact walked_nil hBefore p.volume size
  rw [approach, hHidden]
  refine ⟨before, [], hs, ⟨.refl p, hVisited ▸ hNil, ?_, by simp, ?_, ?_, ?_, ?_⟩, ?_⟩
  · exact congrArg Queue.pending hNew.queue
  · exact (congrArg Tally.visited hNew.tally).trans (by rw [hVisited]; rfl)
  · exact (congrArg Tally.unchanged hNew.tally).trans (by rw [hVisited]; rfl)
  · exact (congrArg Tally.queued hNew.tally).trans (by rw [hVisited]; rfl)
  · exact congrArg Tally.deleted hNew.tally
  · rw [hVisited]
    rfl

theorem approached_of_visible (hTree : t.WellFormed) (hBefore : before.Sound) (hNew : p.IsNew size)
    (hRoot : p.root.IsAbsolute) (hTold : p.told = true) (hs : s.contents = .table before)
    (hHidden : p.isHidden t = .ok false)
    (hGoing : ((p.approach t).run s).result.failure = none) :
    ∃ middle walk, ((p.approach t).run s).store.contents = .table middle ∧
      Approached t p before middle walk ((p.approach t).run s).result.pass ∧
      skips ((p.approach t).run s).notes =
        (p.visited t).filterMap (skip? t p.volume before) := by
  have hVisited : p.visited t = Walk.visits t p.root := by rw [visited, hHidden]
  rw [approach, hHidden] at hGoing
  rw [approach, hHidden, hVisited]
  -- The phase has no bearing on the ledger, which is that of the pass as it was started.
  let walking : Pass := { p with phase := .walking }
  obtain ⟨middle, hMiddle, hExplores⟩ := follows_explore t walking s before hs
  obtain ⟨⟨part, -, hWalked, hAll⟩, hFlushed⟩ :=
    advances_of_explores hTree hBefore (p := walking) hRoot hNew.queue hExplores
  obtain rfl := hAll hGoing
  have hTally := tally_of_explores hTree hBefore (p := walking) hRoot hNew.queue hExplores hGoing
  obtain ⟨hCount, hUnchanged, hQueued, hDeleted⟩ :=
    foldl_observe t p.volume before (Walk.walk t p.root) p.tally
  rw [← hTally, hNew.tally] at hCount hUnchanged hQueued hDeleted
  refine ⟨middle, _, hMiddle, ⟨?_, ?_, hFlushed hGoing,
    explores_isHarmless t hExplores hGoing, ?_, ?_, ?_, hDeleted⟩,
    skips_explore hTree hBefore (p := walking) hTold hs hRoot hNew.queue hGoing⟩
  · exact ⟨hExplores.continues.root, hExplores.continues.volume⟩
  · rw [hVisited]
    exact hWalked
  · rw [hVisited, hCount]
    exact Nat.zero_add _
  · rw [hVisited, hUnchanged]
    exact Nat.zero_add _
  · rw [hVisited, hQueued]
    exact Nat.zero_add _

theorem approached_of_run (hTree : t.WellFormed) (hBefore : before.Sound) (hNew : p.IsNew size)
    (hRoot : p.root.IsAbsolute) (hTold : p.told = true) (hs : s.contents = .table before)
    (hGoing : ((p.approach t).run s).result.failure = none) :
    ∃ middle walk, ((p.approach t).run s).store.contents = .table middle ∧
      Approached t p before middle walk ((p.approach t).run s).result.pass ∧
      skips ((p.approach t).run s).notes =
        (p.visited t).filterMap (skip? t p.volume before) := by
  cases hHidden : p.isHidden t with
  | error fault =>
    rw [approach, hHidden] at hGoing
    cases hGoing
  | ok isHidden =>
    cases isHidden with
    | true => exact approached_of_hidden hBefore hNew hs hHidden
    | false => exact approached_of_visible hTree hBefore hNew hRoot hTold hs hHidden hGoing

theorem told_of_start {path : Path} {told : Bool} (h : Pass.start t path told size = .ok p) :
    p.told = told := by
  obtain ⟨volume, -, hPass⟩ := bind_eq_ok_iff.mp h
  rw [← Except.ok.inj hPass]

/-- A pass that comes to its end from where it is about to sweep has run to completion. -/
theorem Approached.complete {walk sweep : List Call} {half : Pass} {progress : Progress}
    (h : Approached t p before middle walk half) (hBefore : before.Sound)
    (hRoot : p.root.IsAbsolute) (hFinishes : Finishes half middle sweep progress after)
    (hGoing : progress.failure = none) :
    Complete t p before middle after walk sweep half.queue progress.pass.queue := by
  refine (Walked.ran_of_sweeps hBefore hRoot h.continues h.walked h.flushed hFinishes ?_).2 hGoing
  intro _ call hCall hBatch
  refine Call.applied_or_lost ?_ hBatch
  rcases List.mem_append.mp hCall with hWalk | hSweep
  · exact h.harmless call hWalk
  · exact sweeps_isHarmless hFinishes hGoing call hSweep

end Pass

/-! ## The whole pass -/

variable {t : Tree} {p : Pass} {before : Table} {path : Path} {size : Int} {s : Store}

/-- What was told as skipped and the tally are true of a pass from a table before it, over the one
before its sweep, to the one in the end. -/
structure Balances (t : Tree) (p : Pass) (before middle after : Table)
    (skipped : List (Path × Media.Failure)) (tally : Tally) : Prop where
  told : skipped = (p.visited t).filterMap (skip? t p.volume before)
  visited : tally.visited = (p.visited t).length
  sorted : tally.visited = tally.unchanged + tally.queued + skipped.length +
    (p.visited t).countP (isUnclassified p.volume before)
  left : (rowsOf after p.volume p.root).ncard = tally.unchanged + tally.queued
  deleted : tally.deleted + (rowsOf after p.volume p.root).ncard =
    (rowsOf middle p.volume p.root).ncard

/-- The accounts of a pass that returns and loses no batch, over someone who asked to be told of
skipped files. Those told of are the visited entries whose row is not as on disk and whose extractor
failed, once each and in order; the visited entries are those counted as unchanged, those counted as
queued, those told of and those without a category; the rows of the volume at or below the root are
in the end as many as were counted as unchanged or queued; and those that were there before the
sweep and are not in the end are as many as were counted as deleted. -/
theorem pass_accounts (hTree : t.WellFormed) (hPath : path.IsProper) (hBefore : before.Sound)
    (hStart : Pass.start t path true size = .ok p) (hs : s.contents = .table before)
    (hReturns : ((p.run t).run s).result.failure = none)
    (hFailed : ((p.run t).run s).result.pass.queue.failed = 0) :
    ∃ middle after, ((p.approach t).run s).store.contents = .table middle ∧
      ((p.run t).run s).store.contents = .table after ∧
      Balances t p before middle after (skips ((p.run t).run s).notes)
        ((p.run t).run s).result.pass.tally := by
  obtain ⟨hNew, hRoot⟩ := Pass.start_eq_ok hStart
  have hAbsolute : p.root.IsAbsolute := hRoot ▸ hPath.absolute
  rw [Pass.run_eq_approach hNew.phase] at hReturns hFailed ⊢
  obtain ⟨hFirst, hRun⟩ := Pass.run_andThen_of_going hReturns
  rw [hRun] at hReturns hFailed ⊢
  obtain ⟨middle, walk, hMiddle, hApproached, hSkips⟩ :=
    Pass.approached_of_run hTree hBefore hNew hAbsolute (Pass.told_of_start hStart) hs hFirst
  generalize ((p.approach t).run s).result.pass = half at *
  obtain ⟨after, hAfter, hFinishes⟩ := Pass.follows_finish half _ middle hMiddle
  have hComplete := hApproached.complete hBefore hAbsolute hFinishes hReturns
  have hTally := tally_of_finishes hFinishes hComplete.writes.sound hApproached.flushed hReturns
  rw [hApproached.continues.volume, hApproached.continues.root] at hTally
  have hQuiet := Pass.isDiscreet_finish half ((p.approach t).run s).store
  have hTold : skips (((p.approach t).run s).notes ++
      (half.finish.run ((p.approach t).run s).store).notes) =
      (p.visited t).filterMap (skip? t p.volume before) := by
    rw [skips_append, hSkips, hQuiet, List.append_nil]
  refine ⟨middle, after, hMiddle, hAfter, hTold, ?_, ?_, ?_, ?_⟩ <;> rw [hTally]
  · exact hApproached.visited
  · change half.tally.visited = half.tally.unchanged + half.tally.queued + _ + _
    rw [hTold, hApproached.visited, hApproached.unchanged, hApproached.queued]
    exact length_eq_of_standings t p.volume before (p.visited t)
  · change _ = half.tally.unchanged + half.tally.queued
    rw [hApproached.unchanged, hApproached.queued]
    exact hComplete.ncard_after hTree hBefore hAbsolute hFailed
  · change half.tally.deleted + _ + _ = _
    rw [hApproached.deleted, Nat.zero_add]
    exact hComplete.ncard_middle hAbsolute hFailed

/-! ## A pass over a file that cannot be read -/

def brokenTree : Tree :=
  ⟨.plain .directory, [(["m"], .plain .directory), (["m", "a.mp3"], .plain .file)]⟩

def brokenFile : Attributes :=
  ⟨⟨.root, ["m", "a.mp3"]⟩, 0, Disk.Node.defaultTime, Disk.Node.defaultTime, false⟩

/-- A pass over someone who asked to be told of skipped files. -/
def brokenPass : Pass := { playlistPass with told := true }

theorem brokenTree_wellFormed : brokenTree.WellFormed := ⟨by decide, by decide⟩

theorem broken_start : Pass.start brokenTree ⟨.root, ["m"]⟩ true 32 = .ok brokenPass := by cbv

def brokenFailure : Media.Failure :=
  .audioUnreadable "/m/a.mp3" (.undecodable "cannot decode a.mp3")

theorem broken_category :
    Media.categoryOf? brokenFile.path.name brokenFile.isDirectory = some .audio := by cbv

theorem broken_extract : Media.extract brokenTree .audio (Media.sourceOf brokenFile "/") =
    .error brokenFailure := by cbv

theorem broken_reports : brokenPass.Reports brokenTree
    [.visit playlistDirectory, .visit brokenFile, .leave ⟨.root, ["m"]⟩] := by
  refine ⟨by cbv, Walk.walk_of_single (by cbv) (by cbv) (by cbv), ?_⟩
  have hDirectory : isTame brokenTree "/" (.visit playlistDirectory) = true := by decide +kernel
  have hFile : isTame brokenTree "/" (.visit brokenFile) = true := by
    have hExtract := broken_extract
    unfold Media.sourceOf at hExtract
    simp only [isTame, Media.takeIn, broken_category, hExtract]
    rfl
  have hLeave : isTame brokenTree "/" (.leave ⟨.root, ["m"]⟩) = true := rfl
  simp [brokenPass, playlistPass, hDirectory, hFile, hLeave]

theorem broken_skipped : (brokenPass.visited brokenTree).filterMap
    (skip? brokenTree "/" outdatedTable) = [(brokenFile.path, brokenFailure)] := by
  have hDirectory : skip? brokenTree "/" outdatedTable playlistDirectory = none := by
    decide +kernel
  have hFile : skip? brokenTree "/" outdatedTable brokenFile =
      some (brokenFile.path, brokenFailure) := by
    have hLookup : outdatedTable.lookup "/" brokenFile.path = none := by decide +kernel
    simp only [skip?, hLookup, freshness, Media.trouble?, broken_category, broken_extract]
    rfl
  rw [broken_reports.visited]
  simp [Walk.Event.visited?, hDirectory, hFile]

/-- The file is told of, and the accounts are true. -/
theorem pass_accounts_broken :
    ((brokenPass.run brokenTree).run (.ofTable outdatedTable 0)).result.failure = none ∧
    ((brokenPass.run brokenTree).run (.ofTable outdatedTable 0)).result.pass.queue.failed = 0 ∧
    ∃ middle after,
      ((brokenPass.approach brokenTree).run (.ofTable outdatedTable 0)).store.contents =
        .table middle ∧
      ((brokenPass.run brokenTree).run (.ofTable outdatedTable 0)).store.contents = .table after ∧
      Balances brokenTree brokenPass outdatedTable middle after
        [(brokenFile.path, brokenFailure)]
        ((brokenPass.run brokenTree).run (.ofTable outdatedTable 0)).result.pass.tally := by
  have hHealthy : (Store.ofTable outdatedTable 0).Healthy := ⟨⟨rfl, rfl, rfl⟩, rfl, rfl⟩
  have hDue := storable_of_records broken_reports.storable outdatedTable
  have hReturns := returns_of_answers brokenTree_wellFormed playlist_isProper outdatedTable_sound
    broken_start rfl hHealthy.toAnswers broken_reports.quiet hDue outdatedTable_fits
  have hFailed := failed_eq_zero_of_healthy brokenTree_wellFormed playlist_isProper
    outdatedTable_sound broken_start rfl hHealthy broken_reports.quiet hDue outdatedTable_fits
  obtain ⟨middle, after, hMiddle, hAfter, h⟩ := pass_accounts brokenTree_wellFormed
    playlist_isProper outdatedTable_sound broken_start rfl hReturns hFailed
  have hTold := h.told.trans broken_skipped
  exact ⟨hReturns, hFailed, middle, after, hMiddle, hAfter, hTold ▸ h⟩

end MediaIndex.Reconcile
