import MediaIndex.Proofs.CleanPass
import MediaIndex.Proofs.PathReading

/-!
# Independent roots

Two roots are independent if neither lies at or below the other. No path is visited from both, and
what one pass may sweep away the other does not own: that is clear where both roots have one anchor,
and else the passes are of different volumes, for the mount point that gives a volume its name has
the anchor of the root. So each pass leaves at a path what it would leave without the other, and the
order of the two does not show but in numbers and dates.
-/

namespace MediaIndex

namespace Path

theorem IsAbsolute.of_isUnder {p q : Path} (h : p.IsAbsolute) (hUnder : p.isUnder q = true) :
    q.IsAbsolute := by
  obtain ⟨hAnchor, hNames⟩ := isUnder_iff.mp hUnder
  refine ⟨hAnchor ▸ h.anchored, ?_, ?_⟩
  · exact fun name hName => h.proper name (hNames.subset hName)
  · exact fun hUp => h.settled (hNames.subset hUp)

/-- Absolute paths are told by their texts, whatever their anchors. -/
theorem IsAbsolute.text_inj {p q : Path} (hp : p.IsAbsolute) (hq : q.IsAbsolute)
    (h : p.text = q.text) : p = q := by
  rw [← hp.ofText_text, h, hq.ofText_text]

end Path

namespace Disk.Tree

variable {t : Tree}

theorem mem_of_firstMountPoint {last v : Path} {ps : List Path}
    (h : t.firstMountPoint last ps = .ok v) : v = last ∨ v ∈ ps := by
  induction ps generalizing last with
  | nil => exact .inl (Except.ok.inj h).symm
  | cons p rest ih =>
    obtain ⟨isMountPoint, -, h⟩ := bind_eq_ok_iff.mp h
    cases isMountPoint with
    | true => exact .inr (Except.ok.inj h ▸ List.mem_cons_self)
    | false =>
      refine .inr (List.mem_cons.mpr ?_)
      apply ih
      simpa using h

/-- A volume is named by an absolute path with the anchor of the path that it holds. -/
theorem isAbsolute_of_volumeOf {p v : Path} (hp : p.IsAbsolute) (h : t.volumeOf p = .ok v) :
    v.IsAbsolute ∧ v.anchor = p.anchor := by
  have hAbsolute : p.absolute.IsAbsolute := hp.proper.absolute
  have hUnder : p.absolute.isUnder v = true := by
    rw [← Path.mem_parents_iff]
    rcases mem_of_firstMountPoint h with hLast | hMem
    · exact .inl hLast
    · exact List.mem_cons.mp hMem
  have hAnchor : p.absolute.anchor = p.anchor := if_neg hp.anchored
  exact ⟨hAbsolute.of_isUnder hUnder, (Path.isUnder_iff.mp hUnder).1.symm.trans hAnchor⟩

end Disk.Tree

namespace Reconcile

open Catalog (Cell Column Record Row Store Table)
open Disk (Attributes Tree)

variable {t : Tree} {p p₁ p₂ : Pass} {before after now now' later later' : Table} {c : Cell}

/-! ## One pass -/

theorem Pass.exists_volume {path : Path} {told : Bool} {size : Int} (hPath : path.IsProper)
    (hStart : Pass.start t path told size = .ok p) :
    ∃ v : Path, v.IsAbsolute ∧ v.anchor = p.root.anchor ∧ p.volume = v.text := by
  obtain ⟨v, hVolume, hPass⟩ := bind_eq_ok_iff.mp hStart
  obtain ⟨hAbsolute, hAnchor⟩ := Tree.isAbsolute_of_volumeOf hPath.absolute hVolume
  rw [← Except.ok.inj hPass]
  exact ⟨v, hAbsolute, hAnchor, rfl⟩

theorem CleanRun.exists_volume (h : CleanRun t p before after) :
    ∃ v : Path, v.IsAbsolute ∧ v.anchor = p.root.anchor ∧ p.volume = v.text := by
  obtain ⟨hPath, hStart, -, -, -, -⟩ := h
  exact Pass.exists_volume hPath hStart

theorem Leaves.rowOf?_iff_of_passed (h : Leaves t p before after c) (hRoot : p.root.IsAbsolute)
    (hPassed : p.standingAt t before c = .passed) {r : Row} :
    after.rowOf? c = some r ↔ before.rowOf? c = some r ∧ ¬ Table.IsOf p.volume p.root r := by
  cases h with
  | kept h => rw [hPassed] at h; cases h
  | written h => rw [hPassed] at h; cases h
  | passed _ hAfter =>
    rw [hAfter, Option.filter_eq_some_iff, Bool.not_eq_true', Bool.eq_false_iff, ne_eq,
      Pass.isSwept_iff hRoot]

/-- What a pass has at a path that it does not pass over is of its own volume. -/
theorem Leaves.volumeName (h : Leaves t p before after c)
    (hVisited : p.standingAt t before c ≠ .passed) {r : Row} (hRow : after.rowOf? c = some r) :
    r.cells .volumeName = .text p.volume := by
  cases h with
  | kept _ _ hVolume hAfter =>
    obtain rfl := Option.some.inj (hRow.symm.trans hAfter)
    exact hVolume
  | written _ hVolume hAfter hCells _ =>
    obtain rfl := Option.some.inj (hRow.symm.trans hAfter)
    exact hCells ▸ hVolume
  | passed h => exact absurd h hVisited

/-- What a pass leaves at a path is told by the row that it finds there. A row that was there goes
on with its number and its date. -/
theorem Leaves.agree (h : Leaves t p now later c) (h' : Leaves t p now' later' c)
    (hNow : now.Sound) (hNow' : now'.Sound) (hSame : now'.rowOf? c = now.rowOf? c) :
    (later'.rowOf? c).map (·.cells) = (later.rowOf? c).map (·.cells) ∧
      (now.rowOf? c ≠ none → later'.rowOf? c = later.rowOf? c) := by
  refine ⟨?_, fun hSome => ?_⟩
  · rw [h.cells_eq, h'.cells_eq, Pass.cellsDue_congr hNow hNow' hSame]
  have hStanding := Pass.standingAt_congr (t := t) (p := p) hNow hNow' hSame
  cases h with
  | kept h hBefore _ hAfter =>
    cases h' with
    | kept _ hBefore' _ hAfter' => rw [hAfter', hAfter, ← hBefore', hSame, hBefore]
    | written h' => rw [hStanding, h] at h'; cases h'
    | passed h' => rw [hStanding, h] at h'; cases h'
  | @written record row h _ hAfter hCells hInherits =>
    cases h' with
    | kept h' => rw [hStanding, h] at h'; cases h'
    | @written record' row' h' _ hAfter' hCells' hInherits' =>
      rw [hStanding, h, Standing.taken.injEq] at h'
      obtain ⟨old, hOld⟩ := Option.ne_none_iff_exists'.mp hSome
      rw [hSame, hOld] at hInherits'
      rw [hOld] at hInherits
      have hRow : row' = row := by
        obtain ⟨hId, hAdded⟩ := hInherits
        obtain ⟨hId', hAdded'⟩ := hInherits'
        cases row
        cases row'
        simp_all
      rw [hAfter, hAfter', hRow]
    | passed h' => rw [hStanding, h] at h'; cases h'
  | passed h hAfter =>
    cases h' with
    | kept h' => rw [hStanding, h] at h'; cases h'
    | written h' => rw [hStanding, h] at h'; cases h'
    | passed _ hAfter' => rw [hAfter, hAfter', hSame]

/-! ## Two passes -/

/-- Neither of the roots lies at or below the other. -/
structure Independent (p₁ p₂ : Pass) : Prop where
  first : p₁.root.isUnder p₂.root = false
  second : p₂.root.isUnder p₁.root = false

theorem Independent.symm (h : Independent p₁ p₂) : Independent p₂ p₁ := ⟨h.second, h.first⟩

theorem Independent.not_isUnder (h : Independent p₁ p₂) {path : Path}
    (hUnder₁ : path.isUnder p₁.root = true) : path.isUnder p₂.root ≠ true := by
  intro hUnder₂
  rcases Path.isUnder_or_isUnder hUnder₁ hUnder₂ with hInside | hInside
  · rw [h.first] at hInside
    cases hInside
  · rw [h.second] at hInside
    cases hInside

section

variable {after₁ after₁₂ after₂ after₂₁ : Table}

/-- A path that one of the passes visits is not visited by the other. -/
theorem Independent.standingAt_eq_passed (h : Independent p₁ p₂) (hTree : t.WellFormed)
    (hRoot₁ : p₁.root.IsAbsolute) (hRoot₂ : p₂.root.IsAbsolute) {a : Attributes}
    (ha : a ∈ p₁.visited t) (now : Table) :
    p₂.standingAt t now (.text a.path.text) = .passed := by
  rcases Pass.standingAt_cases t p₂ (.text a.path.text) with ⟨b, hb, hText, -⟩ | ⟨-, hAt⟩
  · have hVisits := Pass.mem_visits_of_mem_visited ha
    have hVisits' := Pass.mem_visits_of_mem_visited hb
    have hPath := (Walk.isAbsolute_of_mem_visits hTree hRoot₁ hVisits).text_inj
      (Walk.isAbsolute_of_mem_visits hTree hRoot₂ hVisits') (Cell.text.inj hText)
    have hUnder := Walk.isUnder_of_mem_visits hVisits'
    rw [← hPath] at hUnder
    exact absurd hUnder (h.not_isUnder (Walk.isUnder_of_mem_visits hVisits))
  · exact hAt now

/-- The other pass may not sweep what a pass owns. -/
theorem Independent.not_isOf (h : Independent p₁ p₂) (hTree : t.WellFormed)
    (h₁ : CleanRun t p₁ before after₁) (h₂ : CleanRun t p₂ before after₂) {a : Attributes}
    (ha : a ∈ p₁.visited t) {r : Row} (hPath : r.cells .path = .text a.path.text)
    (hVolume : r.cells .volumeName = .text p₁.volume) : ¬ Table.IsOf p₂.volume p₂.root r := by
  rintro ⟨hVolume', text, hText, hCovers⟩
  obtain ⟨v₁, hv₁, hAnchor₁, hName₁⟩ := h₁.exists_volume
  obtain ⟨v₂, hv₂, hAnchor₂, hName₂⟩ := h₂.exists_volume
  have hSame : v₁ = v₂ := by
    apply hv₁.text_inj hv₂
    rw [← hName₁, ← hName₂]
    exact Cell.text.inj (hVolume.symm.trans hVolume')
  have hVisits := Pass.mem_visits_of_mem_visited ha
  have hUnder := Walk.isUnder_of_mem_visits hVisits
  have hAnchor : a.path.anchor = p₂.root.anchor := by
    rw [(Path.isUnder_iff.mp hUnder).1, ← hAnchor₁, hSame, hAnchor₂]
  rw [hPath, Cell.text.injEq] at hText
  have hAbsolute := Walk.isAbsolute_of_mem_visits hTree h₁.root hVisits
  rw [← hText, h₂.root.isRooted.covers_text_iff hAbsolute.isRooted hAnchor] at hCovers
  exact h.not_isUnder hUnder hCovers

/-- At a path that both passes pass over there is left what neither of them sweeps. -/
theorem Leaves.swapped_of_passed (l₁ : Leaves t p₁ before after₁ c)
    (l₁₂ : Leaves t p₂ after₁ after₁₂ c) (l₂ : Leaves t p₂ before after₂ c)
    (l₂₁ : Leaves t p₁ after₂ after₂₁ c) (hBefore : before.Sound) (hAfter₂ : after₂.Sound)
    (hRoot₁ : p₁.root.IsAbsolute) (hRoot₂ : p₂.root.IsAbsolute)
    (hUnvisited : ∀ now, p₂.standingAt t now c = .passed)
    (hPassed : p₁.standingAt t before c = .passed) : after₂₁.rowOf? c = after₁₂.rowOf? c := by
  have hStill : p₁.standingAt t after₂ c = .passed := by
    cases hRow : after₂.rowOf? c with
    | none =>
      have hSame : p₁.standingAt t after₂ c = p₁.standingAt t before c :=
        Pass.standingAt_of_rowOf?_eq_none hAfter₂ (by simp [hPassed]) hRow
      exact hSame.trans hPassed
    | some r =>
      obtain ⟨hOld, -⟩ := (l₂.rowOf?_iff_of_passed hRoot₂ (hUnvisited before)).mp hRow
      rw [Pass.standingAt_congr hBefore hAfter₂ (hRow.trans hOld.symm), hPassed]
  ext r
  rw [l₂₁.rowOf?_iff_of_passed hRoot₁ hStill, l₂.rowOf?_iff_of_passed hRoot₂ (hUnvisited before),
    l₁₂.rowOf?_iff_of_passed hRoot₂ (hUnvisited after₁), l₁.rowOf?_iff_of_passed hRoot₁ hPassed]
  exact and_right_comm

/-- A path that the first pass does not pass over comes to what is due there in either order, if the
second one does not visit it and may not sweep what the first one owns there. -/
theorem Leaves.swapped_of_owned (l₁ : Leaves t p₁ before after₁ c)
    (l₁₂ : Leaves t p₂ after₁ after₁₂ c) (l₂ : Leaves t p₂ before after₂ c)
    (l₂₁ : Leaves t p₁ after₂ after₂₁ c) (hBefore : before.Sound) (hAfter₂ : after₂.Sound)
    (hRoot₂ : p₂.root.IsAbsolute) (hUnvisited : ∀ now, p₂.standingAt t now c = .passed)
    (hVisited : p₁.standingAt t before c ≠ .passed)
    (hOwn : ∀ r : Row, r.cells .path = c → r.cells .volumeName = .text p₁.volume →
      ¬ Table.IsOf p₂.volume p₂.root r) :
    (after₂₁.rowOf? c).map (·.cells) = (after₁₂.rowOf? c).map (·.cells) := by
  have hPath : ∀ {now : Table} {r : Row}, now.rowOf? c = some r → r.cells .path = c :=
    fun hRow => (Table.mem_of_rowOf?_eq_some hRow).2
  have hFirst : after₁₂.rowOf? c = after₁.rowOf? c := by
    ext r
    rw [l₁₂.rowOf?_iff_of_passed hRoot₂ (hUnvisited after₁)]
    exact and_iff_left_of_imp fun hRow => hOwn r (hPath hRow) (l₁.volumeName hVisited hRow)
  have hDue : p₁.cellsDue t after₂ c = p₁.cellsDue t before c := by
    have hSecond : ∀ {r : Row}, after₂.rowOf? c = some r ↔
        before.rowOf? c = some r ∧ ¬ Table.IsOf p₂.volume p₂.root r :=
      l₂.rowOf?_iff_of_passed hRoot₂ (hUnvisited before)
    by_cases hSwept : ∃ r, before.rowOf? c = some r ∧ Table.IsOf p₂.volume p₂.root r
    · -- The second pass takes the row away, and the first one does not need it.
      obtain ⟨r, hRow, hIsOf⟩ := hSwept
      have hNone : after₂.rowOf? c = none := by
        rw [Option.eq_none_iff_forall_ne_some]
        intro other hOther
        obtain ⟨hOld, hSpared⟩ := hSecond.mp hOther
        rw [hRow, Option.some.injEq] at hOld
        exact hSpared (hOld ▸ hIsOf)
      cases l₁ with
      | kept h hKept hVolume _ =>
        rw [hRow, Option.some.injEq] at hKept
        exact absurd hIsOf (hOwn r (hPath hRow) (hKept ▸ hVolume))
      | written h =>
        have hStanding : p₁.standingAt t after₂ c = p₁.standingAt t before c :=
          Pass.standingAt_of_rowOf?_eq_none hAfter₂ (by simp [h]) hNone
        simp only [Pass.cellsDue, hStanding, h]
      | passed h => exact absurd h hVisited
    · refine Pass.cellsDue_congr hBefore hAfter₂ ?_
      ext r
      rw [hSecond]
      exact and_iff_left_of_imp fun hRow hIsOf => hSwept ⟨r, hRow, hIsOf⟩
  rw [l₂₁.cells_eq, hDue, ← l₁.cells_eq, hFirst]

/-- At a path that the second pass does not visit it leaves the same before the first pass and after
it, if it may not sweep what the first one owns there. -/
theorem Leaves.swapped (l₁ : Leaves t p₁ before after₁ c) (l₁₂ : Leaves t p₂ after₁ after₁₂ c)
    (l₂ : Leaves t p₂ before after₂ c) (l₂₁ : Leaves t p₁ after₂ after₂₁ c)
    (hBefore : before.Sound) (hAfter₂ : after₂.Sound) (hRoot₁ : p₁.root.IsAbsolute)
    (hRoot₂ : p₂.root.IsAbsolute) (hUnvisited : ∀ now, p₂.standingAt t now c = .passed)
    (hOwn : p₁.standingAt t before c ≠ .passed → ∀ r : Row, r.cells .path = c →
      r.cells .volumeName = .text p₁.volume → ¬ Table.IsOf p₂.volume p₂.root r) :
    (after₂₁.rowOf? c).map (·.cells) = (after₁₂.rowOf? c).map (·.cells) := by
  by_cases hVisited : p₁.standingAt t before c = .passed
  · rw [l₁.swapped_of_passed l₁₂ l₂ l₂₁ hBefore hAfter₂ hRoot₁ hRoot₂ hUnvisited hVisited]
  · exact l₁.swapped_of_owned l₁₂ l₂ l₂₁ hBefore hAfter₂ hRoot₂ hUnvisited hVisited (hOwn hVisited)

/-- Clean passes over independent roots leave the same in either order but for numbers and dates.
What a clean pass leaves at or below its root is told by the tree and the rows that it finds there:
over two tables that have the same rows there it leaves the same cells at every such path, and where
there was a row it leaves the same row or none. -/
theorem independent_roots_commute (hTree : t.WellFormed) (hBefore : before.Sound)
    (hIndependent : Independent p₁ p₂) (h₁ : CleanRun t p₁ before after₁)
    (h₁₂ : CleanRun t p₂ after₁ after₁₂) (h₂ : CleanRun t p₂ before after₂)
    (h₂₁ : CleanRun t p₁ after₂ after₂₁) :
    (after₂₁.rows.map (·.cells)).Perm (after₁₂.rows.map (·.cells)) ∧
    ∀ {p : Pass} {now now' later later' : Table}, now.Sound → now'.Sound →
      CleanRun t p now later → CleanRun t p now' later' →
      (∀ r : Row, Table.isUnder p.root r = true → (r ∈ now'.rows ↔ r ∈ now.rows)) →
      ∀ text, p.root.Covers text →
        (later'.rowOf? (.text text)).map (·.cells) = (later.rowOf? (.text text)).map (·.cells) ∧
        (now.rowOf? (.text text) ≠ none →
          later'.rowOf? (.text text) = later.rowOf? (.text text)) := by
  obtain ⟨hAfter₁, l₁⟩ := h₁.leaves hTree hBefore
  obtain ⟨hAfter₁₂, l₁₂⟩ := h₁₂.leaves hTree hAfter₁
  obtain ⟨hAfter₂, l₂⟩ := h₂.leaves hTree hBefore
  obtain ⟨hAfter₂₁, l₂₁⟩ := h₂₁.leaves hTree hAfter₂
  constructor
  · refine hAfter₁₂.perm_cells hAfter₂₁ fun c => ?_
    rcases Pass.standingAt_cases t p₁ c with ⟨a, ha, rfl, -⟩ | ⟨-, hUnvisited⟩
    · refine (l₁ _).swapped (l₁₂ _) (l₂ _) (l₂₁ _) hBefore hAfter₂ h₁.root h₂.root ?_ ?_
      · exact hIndependent.standingAt_eq_passed hTree h₁.root h₂.root ha
      · exact fun _ r hPath hVolume => hIndependent.not_isOf hTree h₁ h₂ ha hPath hVolume
    · refine ((l₂ c).swapped (l₂₁ c) (l₁ c) (l₁₂ c) hBefore hAfter₁ h₂.root h₁.root hUnvisited
        fun hVisited r hPath hVolume => ?_).symm
      rcases Pass.standingAt_cases t p₂ c with ⟨a, ha, rfl, -⟩ | ⟨-, hNone⟩
      · exact hIndependent.symm.not_isOf hTree h₂ h₁ ha hPath hVolume
      · exact absurd (hNone before) hVisited
  · intro p now now' later later' hNow hNow' h h' hRows text hCovers
    have hUnder : ∀ {r : Row}, r.cells .path = .text text → Table.isUnder p.root r = true :=
      fun hPath => (Table.isUnder_iff h.root.zero_notMem_text _).mpr ⟨text, hPath, hCovers⟩
    have hSame : now'.rowOf? (.text text) = now.rowOf? (.text text) := by
      ext r
      rw [hNow.rowOf?_eq_some_iff, hNow'.rowOf?_eq_some_iff]
      exact and_congr_left fun hPath => hRows r (hUnder hPath)
    exact ((h.leaves hTree hNow).2 _).agree ((h'.leaves hTree hNow').2 _) hNow hNow' hSame

end

/-- Two directories with a playlist each. -/
def pairTree : Tree :=
  ⟨.plain .directory, [(["m"], .plain .directory), (["m", "a.m3u"], .plain .file),
    (["n"], .plain .directory), (["n", "b.m3u"], .plain .file)]⟩

def secondDirectory : Attributes :=
  ⟨⟨.root, ["n"]⟩, 4096, Disk.Node.defaultTime, Disk.Node.defaultTime, true⟩

def secondFile : Attributes :=
  ⟨⟨.root, ["n", "b.m3u"]⟩, 0, Disk.Node.defaultTime, Disk.Node.defaultTime, false⟩

def secondPass : Pass := { playlistPass with root := ⟨.root, ["n"]⟩ }

theorem pairTree_wellFormed : pairTree.WellFormed := ⟨by decide, by decide⟩

section

variable {bound : Nat} (hBefore : before.Sound) (hNumbered : before.Numbered bound)
  (hBound : bound < 0x8000000000000000)

include hBefore hNumbered hBound

theorem pair_first_clean : ∃ after, CleanRun pairTree playlistPass before after ∧ after.Sound ∧
    after.Numbered (bound + 2) := by
  have hStart : Pass.start pairTree ⟨.root, ["m"]⟩ false 32 = .ok playlistPass := by cbv
  have hReports : playlistPass.Reports pairTree
      [.visit playlistDirectory, .visit playlistFile, .leave ⟨.root, ["m"]⟩] :=
    ⟨by cbv, Walk.walk_of_single (by cbv) (by cbv) (by cbv), by decide +kernel⟩
  have hClean := cleanRun_of_healthy pairTree_wellFormed playlist_isProper hBefore hStart
    hReports.quiet hReports.storable hNumbered hBound
  rwa [hReports.visited] at hClean

theorem pair_second_clean : ∃ after, CleanRun pairTree secondPass before after ∧ after.Sound ∧
    after.Numbered (bound + 2) := by
  have hStart : Pass.start pairTree ⟨.root, ["n"]⟩ false 32 = .ok secondPass := by cbv
  have hReports : secondPass.Reports pairTree
      [.visit secondDirectory, .visit secondFile, .leave ⟨.root, ["n"]⟩] :=
    ⟨by cbv, Walk.walk_of_single (by cbv) (by cbv) (by cbv), by decide +kernel⟩
  have hClean := cleanRun_of_healthy pairTree_wellFormed (by decide) hBefore hStart
    hReports.quiet hReports.storable hNumbered hBound
  rwa [hReports.visited] at hClean

end

/-- The two directories can be passed over in either order. -/
theorem independent_roots_commute_pair : ∃ after₁ after₁₂ after₂ after₂₁,
    (CleanRun pairTree playlistPass outdatedTable after₁ ∧
      CleanRun pairTree secondPass after₁ after₁₂) ∧
    (CleanRun pairTree secondPass outdatedTable after₂ ∧
      CleanRun pairTree playlistPass after₂ after₂₁) ∧
    (after₂₁.rows.map (·.cells)).Perm (after₁₂.rows.map (·.cells)) := by
  obtain ⟨after₁, h₁, hAfter₁, hCount₁⟩ :=
    pair_first_clean outdatedTable_sound outdatedTable_numbered (by decide)
  obtain ⟨after₁₂, h₁₂, -⟩ := pair_second_clean hAfter₁ hCount₁ (by decide)
  obtain ⟨after₂, h₂, hAfter₂, hCount₂⟩ :=
    pair_second_clean outdatedTable_sound outdatedTable_numbered (by decide)
  obtain ⟨after₂₁, h₂₁, -⟩ := pair_first_clean hAfter₂ hCount₂ (by decide)
  exact ⟨after₁, after₁₂, after₂, after₂₁, ⟨h₁, h₁₂⟩, ⟨h₂, h₂₁⟩,
    (independent_roots_commute pairTree_wellFormed outdatedTable_sound ⟨rfl, rfl⟩ h₁ h₁₂ h₂ h₂₁).1⟩

end Reconcile

end MediaIndex
