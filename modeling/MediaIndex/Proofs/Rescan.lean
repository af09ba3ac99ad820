import MediaIndex.Proofs.AskingStages
import MediaIndex.Proofs.Exactness
import MediaIndex.Proofs.WalkInside

/-!
# Passes that find nothing to do

After a pass that returns and loses no batch, the table has settled for it: every entry it visits is
kept, or has neither a row nor a record, and every row of its volume at or below its root is of a
kept entry. A pass over a settled table only asks. The table has then settled for every pass of the
volume that starts from a visited entry, too, if the entry can itself be examined.
-/

namespace MediaIndex.Reconcile

open Catalog (Cell Operation Record Row Store Table)
open Disk (Attributes Node Tree)
open Walk (Event)

/-- There is nothing to do for a pass. -/
structure Settled (t : Tree) (p : Pass) (now : Table) : Prop where
  hidden : ∃ isHidden, p.isHidden t = .ok isHidden
  events : p.isHidden t = .ok false → ∀ event ∈ Walk.walk t p.root, IsSettled t p.volume now event
  rows : ∀ r ∈ now.rows, Table.IsOf p.volume p.root r → ∃ a ∈ p.visited t,
    r.cells .path = .text a.path.text ∧ ∃ entry, standing t p.volume now a = .kept entry

variable {t : Tree} {p p' : Pass} {before now middle after : Table} {walk sweep calls : List Call}
  {half full : Queue} {a : Attributes}

/-! ## A pass over a settled table -/

theorem Settled.asks (h : Settled t p now) (hTree : t.WellFormed) (hNow : now.Sound) {size : Int}
    (hNew : p.IsNew size) (hRoot : p.root.IsAbsolute) {progress : Pass.Progress}
    (hRuns : Pass.Runs t p now calls progress after) : Asks p now calls progress after := by
  have hPending : p.queue.pending = [] := by
    rw [hNew.queue]
    rfl
  cases hRuns with
  | unseen hFault =>
    obtain ⟨isHidden, hHidden⟩ := h.hidden
    rw [hHidden] at hFault
    cases hFault
  | hidden hHidden hFinishes =>
    have hVisited : p.visited t = [] := by rw [Pass.visited, hHidden]
    refine Asks.of_phase (asks_of_sweeps (p := { p with phase := .sweeping }) hPending ?_ hFinishes)
    intro id hId
    obtain ⟨r, hr, hIsOf, -⟩ := (Table.mem_idsUnder hRoot.zero_notMem_text).mp hId
    obtain ⟨a, ha, -⟩ := h.rows r hr hIsOf
    rw [hVisited] at ha
    cases ha
  | walked hHidden hRest =>
    have hVisited : p.visited t = Walk.visits t p.root := by rw [Pass.visited, hHidden]
    have hFirstAsks : ∀ {calls : List Call} {progress : Pass.Progress} {after : Table},
        Pass.Explores t { p with phase := .walking } now calls progress after →
          Asks p now calls progress after := fun hExplores =>
      Asks.of_phase (asks_of_explores (p := { p with phase := .walking }) hPending
        (h.events hHidden) hExplores)
    cases hRest with
    | stopped hFirst => exact hFirstAsks hFirst
    | @going _ p' _ between _ walk sweep _ hFirst hRest =>
      have hAsks := hFirstAsks hFirst
      obtain ⟨⟨part, -, hWalked, hAll⟩, -⟩ := advances_of_explores
        (p := { p with phase := .walking }) hTree hNow hRoot hNew.queue hFirst
      obtain rfl := hAll rfl
      obtain rfl := hAsks.table
      apply hAsks.trans
      -- The walk has marked the row of every kept entry, so the sweep finds none to delete.
      have hContinues := hFirst.continues
      refine Asks.of_phase (asks_of_sweeps (p := { p' with phase := .sweeping })
        (hAsks.pending.trans hPending) ?_ hRest)
      intro id hId
      have hId : id ∈ between.idsUnder p'.volume p'.root := hId
      rw [hContinues.volume, hContinues.root] at hId
      obtain ⟨r, hr, hIsOf, rfl⟩ := (Table.mem_idsUnder hRoot.zero_notMem_text).mp hId
      obtain ⟨a, ha, hText, hKept⟩ := h.rows r hr hIsOf
      exact (hWalked.mem_scanned_iff hNow hr).mpr ⟨a, hVisited ▸ ha, hText, .inl hKept⟩

/-! ## What a pass settles -/

theorem Complete.kept_after (h : Complete t p before middle after walk sweep half full)
    (hBefore : before.Sound) (ha : a ∈ p.visited t)
    (hConfirmed : Confirmed t p.volume before walk a) :
    ∃ entry, standing t p.volume after a = .kept entry := by
  have hAfter := h.erases.sound
  rcases hConfirmed with ⟨entry, hKept⟩ | ⟨record, hRecord, hTaken⟩
  · obtain ⟨row, hRow, hMiddle, -, -⟩ := h.middle_of_kept hBefore ha hKept
    have hSame := h.after_of_confirmed ha (.inl ⟨entry, hKept⟩) hMiddle
    refine ⟨entry, ?_⟩
    rw [standing_congr hBefore hAfter (hSame.trans hRow.symm), hKept]
  · obtain ⟨row, hMiddle, hCells, -⟩ := row_of_written h.writes hTaken hRecord
    have hRow := h.after_of_confirmed ha (.inr ⟨record, hRecord, hTaken⟩) hMiddle
    exact ⟨_, kept_of_written hAfter hTaken (h.storable record hRecord) hRow hCells⟩

theorem Complete.passed_after (h : Complete t p before middle after walk sweep half full)
    (hTree : t.WellFormed) (hBefore : before.Sound) (hRoot : p.root.IsAbsolute)
    (hFailed : full.failed = 0) (ha : a ∈ p.visited t)
    (hPassed : standing t p.volume before a = .passed) :
    standing t p.volume after a = .passed := by
  have hGone : after.lookup p.volume a.path = none := by
    rw [h.erases.sound.lookup_eq, Option.map_eq_none_iff, Option.filter_eq_none_iff]
    intro r hRow hVolume
    obtain ⟨hr, hText⟩ := Table.mem_of_rowOf?_eq_some hRow
    have hIsOf : Table.IsOf p.volume p.root r := ⟨beq_iff_eq.mp hVolume, _, hText,
      Walk.covers_of_mem_visits hTree hRoot (Pass.mem_visits_of_mem_visited ha)⟩
    obtain ⟨b, hb, hOther, hConfirmed⟩ := h.confirmed_of_isOf hBefore hRoot hFailed hr hIsOf
    rw [hText, Cell.text.injEq] at hOther
    rw [h.eq_of_text_eq ha hb hOther] at hPassed
    exact (h.confirmed_iff hFailed hb).mp hConfirmed hPassed
  have hNotKept : ∀ entry, standing t p.volume before a ≠ .kept entry := by simp [hPassed]
  rw [standing_of_lookup_eq_none hNotKept hGone, hPassed]

/-- A pass that returns and loses no batch settles the table for itself. -/
theorem settled_of_run {path : Path} {told : Bool} {size : Int} {s : Store}
    (hTree : t.WellFormed) (hPath : path.IsProper) (hBefore : before.Sound)
    (hStart : Pass.start t path told size = .ok p) (hs : s.contents = .table before)
    (hReturns : ((p.run t).run s).result.failure = none)
    (hFailed : ((p.run t).run s).result.pass.queue.failed = 0) :
    ∃ after, ((p.run t).run s).store.contents = .table after ∧ after.Sound ∧ Settled t p after := by
  obtain ⟨hNew, hPathRoot⟩ := Pass.start_eq_ok hStart
  have hRoot : p.root.IsAbsolute := hPathRoot ▸ hPath.absolute
  obtain ⟨after, hAfter, hRuns⟩ := Pass.ensures_run (t := t) hs hNew.phase
  obtain ⟨walk, sweep, middle, half, -, -, hComplete⟩ := ran_of_runs hTree hBefore hNew hRoot hRuns
  have h := hComplete hReturns
  obtain ⟨hidden, hHidden, hNone⟩ := hRuns.failed_notMem hReturns
  refine ⟨after, hAfter, h.erases.sound, ⟨hidden, hHidden⟩, ?_, ?_⟩
  · intro hVisible event hEvent
    cases event with
    | hidden path => trivial
    | leave path => trivial
    | failed path fault =>
      rintro rfl
      exact hNone (Except.ok.inj (hHidden.symm.trans hVisible)) path hEvent
    | visit a =>
      have ha : a ∈ p.visited t :=
        Pass.mem_visited_iff.mpr ⟨hVisible, List.mem_filterMap.mpr ⟨_, hEvent, rfl⟩⟩
      by_cases hPassed : standing t p.volume before a = .passed
      · exact .inr ⟨h.passed_after hTree hBefore hRoot hFailed ha hPassed,
          h.walked.read a ha hPassed⟩
      · exact .inl (h.kept_after hBefore ha ((h.confirmed_iff hFailed ha).mpr hPassed))
  · intro r hr hIsOf
    obtain ⟨a, ha, hText, hConfirmed⟩ := h.confirmed_of_isOf hBefore hRoot hFailed hr hIsOf
    exact ⟨a, ha, hText, h.kept_after hBefore ha hConfirmed⟩

/-! ## Passes from inside -/

/-- The paths from which a walk may start anew: the root, and what was visited and can itself be
examined. -/
def Pass.Within (t : Tree) (p : Pass) (path : Path) : Prop :=
  path = p.root ∨ (∃ a ∈ p.visited t, a.path = path) ∧ ∃ target, t.statOwn path = .ok target

theorem Settled.inside (h : Settled t p now) (hTree : t.WellFormed) (hRoot : p.root.IsAbsolute)
    (hVolume : p'.volume = p.volume) (hWithin : p.Within t p'.root) : Settled t p' now := by
  rcases hWithin with hSame | ⟨⟨b, hb, hFrom⟩, target, hOwn⟩
  · refine ⟨?_, ?_, ?_⟩
    · rw [Pass.isHidden_congr hSame]
      exact h.hidden
    · rw [Pass.isHidden_congr hSame, hSame, hVolume]
      exact h.events
    · rw [Pass.visited_congr hSame, hSame, hVolume]
      exact h.rows
  · obtain ⟨hVisible, hVisits⟩ := Pass.mem_visited_iff.mp hb
    rw [← hFrom] at hOwn
    have hSelf := Walk.attributes_of_mem_visits_of_statOwn hVisits hOwn
    have hInside := Pass.isHidden_inside hb hFrom.symm
    refine ⟨⟨false, hInside⟩, ?_, ?_⟩
    · intro _ event hEvent
      rw [← hFrom] at hEvent
      rw [hVolume]
      exact h.events hVisible event (Walk.walk_inside_subset hVisits hSelf hEvent)
    · rintro r hr ⟨hRowVolume, text, hText, hCovers⟩
      rw [hVolume] at hRowVolume
      rw [← hFrom] at hCovers
      have hAbsolute := Walk.isAbsolute_of_mem_visits hTree hRoot hVisits
      have hUnder := Walk.isUnder_of_mem_visits hVisits
      have hIsOf : Table.IsOf p.volume p.root r :=
        ⟨hRowVolume, text, hText,
          hRoot.isRooted.covers_trans hAbsolute.isRooted hUnder hCovers⟩
      obtain ⟨a, ha, hPath, hKept⟩ := h.rows r hr hIsOf
      rw [hText, Cell.text.injEq] at hPath
      obtain ⟨-, haVisits⟩ := Pass.mem_visited_iff.mp ha
      have haAbsolute := Walk.isAbsolute_of_mem_visits hTree hRoot haVisits
      have haUnder := Walk.isUnder_of_mem_visits haVisits
      have hAnchor : a.path.anchor = b.path.anchor :=
        (Path.isUnder_iff.mp haUnder).1.trans (Path.isUnder_iff.mp hUnder).1.symm
      have haInside : a.path.isUnder b.path = true :=
        (hAbsolute.isRooted.covers_text_iff haAbsolute.isRooted hAnchor).mp (hPath ▸ hCovers)
      refine ⟨a, Pass.mem_visited_iff.mpr ⟨hInside, ?_⟩, hText.trans (hPath ▸ rfl), ?_⟩
      · rw [← hFrom]
        exact (Walk.mem_visits_inside_iff hVisits hSelf hTree).mpr ⟨haVisits, haInside⟩
      · rw [hVolume]
        exact hKept

theorem Settled.asks_of_run {path : Path} {told : Bool} {size : Int} {s : Store}
    (h : Settled t p now) (hTree : t.WellFormed) (hPath : path.IsProper) (hNow : now.Sound)
    (hStart : Pass.start t path told size = .ok p) (hs : s.contents = .table now) :
    ((p.run t).run s).store.contents = .table now ∧
      Asks p now ((p.run t).calls s) ((p.run t).run s).result now ∧
      (s.Answers → ((p.run t).run s).result.failure = none) := by
  obtain ⟨hNew, hRoot⟩ := Pass.start_eq_ok hStart
  obtain ⟨after, hAfter, hRuns⟩ := Pass.ensures_run (t := t) hs hNew.phase
  have hAsks := h.asks hTree hNow hNew (hRoot ▸ hPath.absolute) hRuns
  obtain rfl := hAsks.table
  refine ⟨hAfter, hAsks, ?_⟩
  intro hAnswers
  refine Classical.byContradiction fun hStopped => ?_
  obtain ⟨call, hCall, hUnanswered⟩ := hAsks.answered hStopped
  obtain ⟨hAnswered, -⟩ := ((p.run t).answers_run hAnswers).2 call hCall
  rw [hAnswered] at hUnanswered
  cases hUnanswered

/-- After a pass that returns and loses no batch, a pass of the volume from its root, or from a
visited entry that can itself be examined, submits nothing, counts nothing as queued or deleted and
leaves the table as it is; and it returns, if the store answers. -/
theorem rescan_asks {path path' : Path} {told told' : Bool} {size size' : Int} {s s' : Store}
    (hTree : t.WellFormed) (hPath : path.IsProper) (hBefore : before.Sound)
    (hStart : Pass.start t path told size = .ok p) (hs : s.contents = .table before)
    (hReturns : ((p.run t).run s).result.failure = none)
    (hFailed : ((p.run t).run s).result.pass.queue.failed = 0)
    (hPath' : path'.IsProper) (hStart' : Pass.start t path' told' size' = .ok p')
    (hVolume : p'.volume = p.volume) (hWithin : p.Within t p'.root)
    (hs' : s'.contents = ((p.run t).run s).store.contents) :
    (∀ call ∈ (p'.run t).calls s', call.isBatch = false) ∧
      ((p'.run t).run s').store.contents = s'.contents ∧
      ((p'.run t).run s').result.pass.tally.queued = 0 ∧
      ((p'.run t).run s').result.pass.tally.deleted = 0 ∧
      (s'.Answers → ((p'.run t).run s').result.failure = none) := by
  obtain ⟨now, hNow, hSound, hSettled⟩ :=
    settled_of_run hTree hPath hBefore hStart hs hReturns hFailed
  have hRoot : p.root.IsAbsolute := (Pass.start_eq_ok hStart).2 ▸ hPath.absolute
  have hInside := hSettled.inside hTree hRoot hVolume hWithin
  rw [hNow] at hs'
  obtain ⟨hContents, hAsks, hGoing⟩ := hInside.asks_of_run hTree hPath' hSound hStart' hs'
  have hTally := (Pass.start_eq_ok hStart').1.tally
  refine ⟨hAsks.batches, hContents.trans hs'.symm, ?_, ?_, hGoing⟩
  · rw [hAsks.queued, hTally]
    rfl
  · rw [hAsks.deleted, hTally]
    rfl

/-! ## Passes over a playlist and from it -/

def playlistFilePass : Pass := ⟨⟨.root, ["m", "a.m3u"]⟩, "/", false, .ofSize 32, .notStarted, .zero⟩

theorem rescan_asks_playlist :
    let first := (playlistPass.run playlistTree).run (.ofTable outdatedTable 0)
    (∀ call ∈ (playlistFilePass.run playlistTree).calls first.store, call.isBatch = false) ∧
      ((playlistFilePass.run playlistTree).run first.store).store.contents = first.store.contents ∧
      ((playlistFilePass.run playlistTree).run first.store).result.pass.tally.queued = 0 ∧
      ((playlistFilePass.run playlistTree).run first.store).result.pass.tally.deleted = 0 ∧
      ((playlistFilePass.run playlistTree).run first.store).result.failure = none := by
  have hHealthy : (Store.ofTable outdatedTable 0).Healthy := ⟨⟨rfl, rfl, rfl⟩, rfl, rfl⟩
  have hFile : playlistFile ∈ playlistPass.visited playlistTree := by
    rw [playlist_visited]
    exact List.mem_cons_of_mem _ List.mem_cons_self
  have hStart :
      Pass.start playlistTree ⟨.root, ["m", "a.m3u"]⟩ false 32 = .ok playlistFilePass := by cbv
  have hOwn : ∃ target, playlistTree.statOwn playlistFilePass.root = .ok target := ⟨_, by cbv⟩
  have hAsks := rescan_asks playlistTree_wellFormed playlist_isProper outdatedTable_sound
    playlist_start rfl (playlist_returns rfl hHealthy.toAnswers) (playlist_failed rfl hHealthy)
    (by decide) hStart rfl (.inr ⟨⟨playlistFile, hFile, rfl⟩, hOwn⟩) rfl
  obtain ⟨hBatches, hContents, hQueued, hDeleted, hReturns⟩ := hAsks
  exact ⟨hBatches, hContents, hQueued, hDeleted,
    hReturns ((playlistPass.run playlistTree).answers_run hHealthy.toAnswers).1⟩

/-! ## Passes over a link and from it -/

/-- A directory with a link to a file, whose own attributes cannot be read. -/
def linkTree : Tree :=
  ⟨.plain .directory,
    [(["n.m3u"], { Node.plain .file with size := some 3 }),
     (["m"], .plain .directory),
     (["m", "l.m3u"], { Node.plain .link with
       target := "/n.m3u"
       statObstacle := some (.reason .ioError) })]⟩

def linkFile : Attributes :=
  ⟨⟨.root, ["m", "l.m3u"]⟩, 3, Node.defaultTime, Node.defaultTime, false⟩

def linkPass : Pass := ⟨⟨.root, ["m", "l.m3u"]⟩, "/", false, .ofSize 32, .notStarted, .zero⟩

def linkTable : Table := ⟨[outdatedRow 1 "/m", outdatedRow 2 "/m/l.m3u"], 2⟩

theorem linkTree_wellFormed : linkTree.WellFormed := ⟨by decide, by decide⟩

theorem linkTable_sound : linkTable.Sound := ⟨by decide, by decide, by decide⟩

theorem linkPass_start :
    Pass.start linkTree ⟨.root, ["m", "l.m3u"]⟩ false 32 = .ok linkPass := by cbv

theorem linkTree_reports : playlistPass.Reports linkTree
    [.visit playlistDirectory, .visit linkFile, .leave ⟨.root, ["m"]⟩] :=
  ⟨by cbv, Walk.walk_of_single (by cbv) (by cbv) (by cbv), by decide +kernel⟩

theorem linkTree_visited : playlistPass.visited linkTree = [playlistDirectory, linkFile] :=
  linkTree_reports.visited

theorem linkTable_kept : standing linkTree "/" linkTable playlistDirectory =
      .kept ⟨1, .integer 3, .integer 1600000000⟩ ∧
    standing linkTree "/" linkTable linkFile = .kept ⟨2, .integer 3, .integer 1600000000⟩ := by
  constructor
  · exact standing_eq_kept_iff.mpr ⟨by cbv, .inl rfl⟩
  · exact standing_eq_kept_iff.mpr ⟨by cbv, .inr (by decide +kernel)⟩

theorem linkTable_settled : Settled linkTree playlistPass linkTable where
  hidden := ⟨false, linkTree_reports.visible⟩
  events _ event hEvent := by
    rw [linkTree_reports.walk] at hEvent
    simp only [List.mem_cons, List.not_mem_nil, or_false] at hEvent
    rcases hEvent with rfl | rfl | rfl
    · exact .inl ⟨_, linkTable_kept.1⟩
    · exact .inl ⟨_, linkTable_kept.2⟩
    · trivial
  rows r hr _ := by
    rw [linkTree_visited]
    simp only [linkTable, List.mem_cons, List.not_mem_nil, or_false] at hr
    rcases hr with rfl | rfl
    · exact ⟨playlistDirectory, List.mem_cons_self, rfl, _, linkTable_kept.1⟩
    · exact ⟨linkFile, List.mem_cons_of_mem _ List.mem_cons_self, rfl, _, linkTable_kept.2⟩

theorem linkPass_reports : linkPass.Reports linkTree
    [.failed ⟨.root, ["m", "l.m3u"]⟩ (.failed .ioError "/m/l.m3u")] := by
  refine ⟨by cbv, ?_, rfl⟩
  have hRoot : linkTree.attributes linkPass.root = .error (.failed .ioError "/m/l.m3u") := by cbv
  rw [Walk.walk, hRoot]
  rfl

/-- A walk visits the link, but a pass from it cannot, and takes its row for one of a file that is
gone. -/
theorem rescan_from_link :
    let first := (playlistPass.run linkTree).run (.ofTable linkTable 0)
    Pass.start linkTree ⟨.root, ["m"]⟩ false 32 = .ok playlistPass ∧
      first.result.failure = none ∧ first.result.pass.queue.failed = 0 ∧
      Pass.start linkTree ⟨.root, ["m", "l.m3u"]⟩ false 32 = .ok linkPass ∧
      linkPass.volume = playlistPass.volume ∧
      (∃ a ∈ playlistPass.visited linkTree, a.path = linkPass.root) ∧
      ((linkPass.run linkTree).run first.store).store.contents ≠ first.store.contents := by
  have hHealthy : (Store.ofTable linkTable 0).Healthy := ⟨⟨rfl, rfl, rfl⟩, rfl, rfl⟩
  have hStart : Pass.start linkTree ⟨.root, ["m"]⟩ false 32 = .ok playlistPass := by cbv
  obtain ⟨hContents, hAsks, hReturns⟩ := linkTable_settled.asks_of_run (s := .ofTable linkTable 0)
    linkTree_wellFormed playlist_isProper linkTable_sound hStart rfl
  refine ⟨hStart, hReturns hHealthy.toAnswers, hAsks.failed, linkPass_start, rfl, ?_, ?_⟩
  · rw [linkTree_visited]
    exact ⟨linkFile, List.mem_cons_of_mem _ List.mem_cons_self, rfl⟩
  · have hProper : Path.IsProper ⟨.root, ["m", "l.m3u"]⟩ := by decide
    have hFirst := ((playlistPass.run linkTree).healthy_run hHealthy).1
    have hDue : ∀ record ∈ dueRecords linkTree linkPass.volume linkTable
        (linkPass.visited linkTree), Media.IsStorable record := by
      rw [linkPass_reports.visited]
      exact fun record hRecord => by cases hRecord
    have hRows : ∀ r ∈ linkTable.rows, Catalog.fitsWord r.id = true := by decide
    have hSecond := returns_of_answers linkTree_wellFormed hProper linkTable_sound linkPass_start
      hContents hFirst.toAnswers linkPass_reports.quiet hDue hRows
    have hFailed := failed_eq_zero_of_healthy linkTree_wellFormed hProper linkTable_sound
      linkPass_start hContents hFirst linkPass_reports.quiet hDue hRows
    obtain ⟨after, middle, walk, sweep, half, hAfter, -, h⟩ :=
      complete_of_run linkTree_wellFormed hProper linkTable_sound linkPass_start hContents hSecond
    rw [hAfter, hContents]
    rintro ⟨⟩
    obtain ⟨a, ha, -⟩ := h.confirmed_of_isOf (r := outdatedRow 2 "/m/l.m3u") linkTable_sound
      hProper.absolute hFailed (by simp [linkTable]) ⟨rfl, "/m/l.m3u", rfl, .inl (by cbv)⟩
    rw [linkPass_reports.visited] at ha
    cases ha

end MediaIndex.Reconcile
