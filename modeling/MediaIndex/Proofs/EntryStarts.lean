import MediaIndex.Proofs.HiddenDirectories

/-!
# An entry scanned by itself

A pass may start at an entry of a directory, and another one at the directory itself. A listing goes
on with files, directories and links to files alone, but a pass takes its root whatever it is. So
both leave the same at the path of the entry if it is one that a listing goes on with, and else only
if the pass that starts there makes nothing of it.
-/

namespace MediaIndex

namespace Disk.Tree

variable {t : Tree} {p : Path}

/-- What a listing goes on with: a file, a directory, or a link to a file. -/
def IsListed (t : Tree) (p : Path) (n : Node) : Prop :=
  n.isFile = true ∨ n.isDirectory = true ∨ n.isLink = true ∧ t.isFile? p = .ok true

theorem exists_entry_iff {own : Place × Node} (hOwn : t.statOwn p = .ok own) :
    (∃ c, t.entry p own.2.kind = .ok (some c)) ↔ t.IsListed p own.2 := by
  simp only [entry_eq_some_iff, IsListed, Node.isFile, Node.isDirectory, Node.isLink, beq_iff_eq,
    isFile?, holds_eq_true_iff]
  constructor
  · rintro ⟨c, ⟨hKind | hKind, -⟩ | ⟨hKind, file, hStat, hFile, -⟩⟩
    · exact .inl hKind
    · exact .inr (.inl hKind)
    · exact .inr (.inr ⟨hKind, file, hStat, hFile⟩)
  · rintro (hKind | hKind | ⟨hKind, file, hStat, hFile⟩)
    · exact ⟨_, .inl ⟨.inl hKind, own, hOwn, rfl⟩⟩
    · exact ⟨_, .inl ⟨.inr hKind, own, hOwn, rfl⟩⟩
    · exact ⟨_, .inr ⟨hKind, file, hStat, hFile, rfl⟩⟩

theorem IsListed.isDirectory_of_not {n : Node} (h : ¬ t.IsListed p n) : n.isDirectory = false := by
  simpa using fun hDirectory => h (.inr (.inl hDirectory))

/-- In a clear tree whatever can be examined has attributes, and what a listing does not go on with
has them of no directory. -/
theorem IsClear.exists_attributes (hClear : t.IsClear) {own : Place × Node}
    (hOwn : t.statOwn p = .ok own) :
    ∃ a, t.attributes p = .ok a ∧ (¬ t.IsListed p own.2 → a.isDirectory = false) := by
  cases hLink : own.2.isLink with
  | false =>
    refine ⟨_, attributes_of_ne_link hOwn hLink, fun hOther => ?_⟩
    exact IsListed.isDirectory_of_not hOther
  | true =>
    obtain ⟨isFile, hIsFile⟩ := hClear.holds p (·.isFile)
    replace hIsFile : t.isFile? p = .ok isFile := hIsFile
    cases isFile with
    | true =>
      obtain ⟨file, hStat, -⟩ := holds_eq_true_iff.mp hIsFile
      exact ⟨_, attributes_of_link hOwn hLink hIsFile hStat, fun _ => rfl⟩
    | false =>
      refine ⟨.ofNode p own.2 own.2.isDirectory, ?_, fun hOther => ?_⟩
      · simp [attributes, hOwn, hLink, hIsFile, bind, Except.bind, pure, Except.pure]
      · exact IsListed.isDirectory_of_not hOther

end Disk.Tree

namespace Walk

open Disk

variable {t : Tree} {a b : Attributes} {root : Path}

theorem Reaches.eq_of_path_eq (h : Reaches t a b) (hPath : b.path = a.path) : b = a := by
  cases h with
  | here => rfl
  | inside hDirectory hOpen hc hRest => exact absurd (hPath ▸ hRest.isUnder) (isUnder_child_ne hc)

theorem Reaches.isOpen (h : Reaches t a b) : IsOpen t b := by
  induction h with
  | here hOpen => exact hOpen
  | inside _ _ _ _ ih => exact ih

/-- A walk visits the entries of its root that it lists and that are open. -/
theorem mem_visits_entry_iff (hRoot : t.attributes root = .ok a) (hDirectory : a.isDirectory = true)
    (hVisible : isHidden t root = .ok false) {name : String} (hPath : b.path = root.child name) :
    b ∈ visits t root ↔ b ∈ children t root ∧ IsOpen t b := by
  obtain rfl : a.path = root := Tree.attributes_path hRoot
  rw [visits_of_attributes hRoot, mem_below_iff]
  constructor
  · intro h
    refine ⟨?_, h.isOpen⟩
    cases h with
    | here =>
      have hLength := congrArg (·.names.length) hPath
      simp [Path.child] at hLength
    | @inside _ _ c _ _ hc hRest =>
      have hSame : b.path = c.path := by
        obtain ⟨other, hOther⟩ := exists_child_of_mem_children hc
        refine Path.isUnder_antisymm hRest.isUnder ?_
        obtain ⟨hAnchor, hNames⟩ := Path.isUnder_iff.mp hRest.isUnder
        have hEq : c.path.names = b.path.names :=
          hNames.eq_of_length (by simp [hOther, hPath, Path.child])
        exact Path.isUnder_iff.mpr ⟨hAnchor.symm, hEq ▸ List.prefix_refl _⟩
      rw [hRest.eq_of_path_eq hSame]
      exact hc
  · rintro ⟨hb, hOpen⟩
    exact .inside hDirectory (fun _ => hVisible) hb (.here hOpen)

end Walk

namespace Disk.Tree

variable {t : Tree} {p : Path}

theorem isRealDirectory_of_attributes {a : Attributes} (h : t.attributes p = .ok a)
    (hDirectory : a.isDirectory = true) : t.IsRealDirectory p := by
  obtain ⟨own, hOwn, hRest⟩ := bind_eq_ok_iff.mp h
  refine ⟨own, hOwn, ?_⟩
  cases hLink : own.2.isLink with
  | false =>
    rw [attributes_of_ne_link hOwn hLink] at h
    rw [← Except.ok.inj h] at hDirectory
    exact hDirectory
  | true =>
    simp only [hLink, bind, Except.bind, pure, Except.pure] at hRest
    split at hRest
    · split at hRest
      · cases hRest
      · split at hRest
        · split at hRest
          · cases hRest
          · rw [← Except.ok.inj hRest] at hDirectory
            cases hDirectory
        · rw [← Except.ok.inj hRest] at hDirectory
          exact hDirectory
    · rw [← Except.ok.inj hRest] at hDirectory
      exact hDirectory

end Disk.Tree

theorem Walk.isRealDirectory_of_mem_visits {t : Disk.Tree} {root : Path} {a : Disk.Attributes}
    (h : a ∈ visits t root) (hDirectory : a.isDirectory = true) : t.IsRealDirectory a.path := by
  obtain ⟨first, hRoot, hBelow⟩ := attributes_of_mem_visits h
  rcases (mem_below_iff.mp hBelow).eq_or_mem_children with rfl | ⟨p, hc⟩
  · rw [Disk.Tree.attributes_path hRoot]
    exact Disk.Tree.isRealDirectory_of_attributes hRoot hDirectory
  · obtain ⟨place, name, n, hPlace, hUp, hNode, hEntry, hPath⟩ := exists_entry_of_mem_children hc
    obtain ⟨hKind, -⟩ := Disk.Tree.isDirectory_of_entry hEntry hDirectory
    rw [hKind] at hEntry
    obtain ⟨own, hOwn, -⟩ := bind_eq_ok_iff.mp hEntry
    have hSame := Disk.Tree.node_of_statOwn_child hPlace hUp hNode hOwn
    exact ⟨own, hPath ▸ hOwn, by rw [hSame, Disk.Node.isDirectory, hKind]; rfl⟩

namespace Reconcile

open Catalog (Cell Row Store Table)
open Disk (Attributes Node Place Tree)

variable {t : Tree} {p p' : Pass} {before now : Table} {name : String} {own : Place × Node}

namespace Pass

theorem exists_isHidden (hClear : t.IsClear) (p : Pass) : ∃ hidden, p.isHidden t = .ok hidden := by
  obtain ⟨isDirectory, hDirectory⟩ := hClear.holds p.root (·.isDirectory)
  replace hDirectory : t.isDirectory? p.root = .ok isDirectory := hDirectory
  rw [isHidden, startDirectory, hDirectory]
  exact Walk.exists_isHiddenLocation hClear _

theorem standingAt_of_hidden (h : p.isHidden t = .ok true) (now : Table) (c : Cell) :
    p.standingAt t now c = .passed := by
  rw [standingAt, visited, h]
  rfl

/-- A path at or below the root that is not visited is passed over. -/
theorem standingAt_eq_passed (hTree : t.WellFormed) (hRoot : p.root.IsAbsolute) {q : Path}
    (hq : q.IsAbsolute) (hAnchor : q.anchor = p.root.anchor) (hNone : ∀ b ∈ p.visited t, b.path ≠ q)
    (now : Table) : p.standingAt t now (.text q.text) = .passed := by
  rcases standingAt_cases t p (.text q.text) with ⟨b, hb, hText, -⟩ | ⟨-, hAt⟩
  · have hVisits := mem_visits_of_mem_visited hb
    have hRooted := (Walk.isAbsolute_of_mem_visits hTree hRoot hVisits).isRooted
    have hSame := hRooted.eq_of_text_eq hq.isRooted
      ((Path.isUnder_iff.mp (Walk.isUnder_of_mem_visits hVisits)).1.trans hAnchor.symm)
      (Cell.text.inj hText).symm
    exact absurd hSame (hNone b hb)
  · exact hAt now

/-- The first pass starts at a directory that some walk enters, and the second one at an entry of
it, on the same volume. -/
structure StartsAtEntry (t : Tree) (p p' : Pass) (name : String) (own : Place × Node) : Prop where
  tree : t.WellFormed
  clear : t.IsClear
  entered : ∃ (first : Pass) (a : Attributes), a ∈ first.visited t ∧ a.isDirectory = true ∧
    a.path = p.root
  absolute : p'.root.IsAbsolute
  child : p'.root = p.root.child name
  own : t.statOwn p'.root = .ok own
  volume : p'.volume = p.volume

namespace StartsAtEntry

variable (h : StartsAtEntry t p p' name own)

include h

theorem absolute_root : p.root.IsAbsolute ∧ name ≠ ".." :=
  (h.child ▸ h.absolute : (p.root.child name).IsAbsolute).of_child

theorem covers : p.root.Covers p'.root.text := by
  have hUnder : p'.root.isUnder p.root = true := h.child ▸ Path.child_isUnder p.root name
  exact (h.absolute_root.1.isRooted.covers_text_iff h.absolute.isRooted
    (Path.isUnder_iff.mp hUnder).1).mpr hUnder

theorem exists_attributes : ∃ a, t.attributes p.root = .ok a ∧ a.isDirectory = true ∧
    Walk.isHidden t p.root = .ok false ∧ p.isHidden t = .ok false := by
  obtain ⟨first, a, ha, hDirectory, hPath⟩ := h.entered
  have hVisible := isHidden_inside ha hPath.symm
  obtain ⟨-, hVisits⟩ := Pass.mem_visited_iff.mp ha
  obtain ⟨target, hOwn, -⟩ := Walk.isRealDirectory_of_mem_visits hVisits hDirectory
  have hRoot := Walk.attributes_of_mem_visits_of_statOwn hVisits hOwn
  obtain ⟨start, -, hBelow⟩ := Walk.attributes_of_mem_visits hVisits
  have hOpen := (Walk.mem_below_iff.mp hBelow).isOpen hDirectory
  rw [hPath] at hRoot hOpen
  exact ⟨a, hRoot, hDirectory, hOpen, hVisible⟩

theorem mem_children_iff {b : Attributes} (hPath : b.path = p'.root) :
    b ∈ Walk.children t p.root ↔ t.entry p'.root own.2.kind = .ok (some b) := by
  obtain ⟨a, hRoot, hDirectory, -, -⟩ := h.exists_attributes
  obtain ⟨hAbsolute, hUp⟩ := h.absolute_root
  obtain ⟨target, hStat, hTarget⟩ :=
    (Tree.isRealDirectory_of_attributes hRoot hDirectory).stat hAbsolute
  have hOwn := h.own
  rw [h.child] at hOwn hPath ⊢
  rw [← Walk.mem_children_iff h.clear hStat hTarget hUp hOwn, and_iff_left hPath]

/-- The pass over the directory visits the entry if the directory lists it and it is open. -/
theorem mem_visited_iff {b : Attributes} (hPath : b.path = p'.root) : b ∈ p.visited t ↔
    t.entry p'.root own.2.kind = .ok (some b) ∧ Walk.IsOpen t b := by
  obtain ⟨a, hRoot, hDirectory, hOpen, hVisible⟩ := h.exists_attributes
  rw [Pass.mem_visited_iff, Walk.mem_visits_entry_iff hRoot hDirectory hOpen (h.child ▸ hPath),
    h.mem_children_iff hPath, and_iff_right hVisible]

theorem standingAt_of_unvisited (hNone : ∀ b ∈ p.visited t, b.path ≠ p'.root) (now : Table) :
    p.standingAt t now (.text p'.root.text) = .passed :=
  Pass.standingAt_eq_passed h.tree h.absolute_root.1 h.absolute (by rw [h.child]; rfl) hNone now

/-- What the directory lists stands the same in both passes. -/
theorem standingAt_eq (hListed : t.IsListed p'.root own.2) (now : Table) :
    p'.standingAt t now (.text p'.root.text) = p.standingAt t now (.text p'.root.text) := by
  obtain ⟨b, hEntry⟩ := (Tree.exists_entry_iff h.own).mpr hListed
  have hPath : b.path = p'.root := Tree.entry_path hEntry
  have hChild := (h.mem_children_iff hPath).mpr hEntry
  by_cases hOpen : Walk.IsOpen t b
  · have hb : b ∈ p.visited t := (h.mem_visited_iff hPath).mpr ⟨hEntry, hOpen⟩
    have hSelf : t.attributes p'.root = .ok b := by
      rw [← hPath]
      exact Walk.attributes_of_mem_children hChild (hPath ▸ h.own)
    have hb' : b ∈ p'.visited t := by
      rw [Pass.mem_visited_iff, Walk.visits_of_attributes hSelf, Walk.mem_below_iff]
      exact ⟨isHidden_inside hb hPath.symm, .here hOpen⟩
    rw [← hPath, standingAt_of_mem h.tree h.absolute hb' now,
      standingAt_of_mem h.tree h.absolute_root.1 hb now, h.volume]
  · -- A hidden directory is passed over by both.
    have hUnvisited : ∀ e ∈ p.visited t, e.path ≠ p'.root := by
      intro e he hSame
      obtain ⟨hOther, hOtherOpen⟩ := (h.mem_visited_iff hSame).mp he
      obtain rfl := Option.some.inj (Except.ok.inj (hEntry.symm.trans hOther))
      exact hOpen hOtherOpen
    have hHidden : p'.isHidden t = .ok true := by
      obtain ⟨hidden, hHidden⟩ := p'.exists_isHidden h.clear
      cases hidden with
      | true => exact hHidden
      | false =>
        refine absurd (fun hDirectory => ?_) hOpen
        obtain ⟨target, hStat, hSame⟩ := Walk.stat_of_mem_children hChild
        rw [hPath] at hStat ⊢
        refine isHidden_of_directory hHidden ?_ (Path.isUnder_refl _)
        rw [Tree.isDirectory?_of_stat hStat, hSame, hDirectory]
    rw [standingAt_of_hidden hHidden, h.standingAt_of_unvisited hUnvisited]

theorem standingAt_of_not_listed (hOther : ¬ t.IsListed p'.root own.2) (now : Table) :
    p.standingAt t now (.text p'.root.text) = .passed := by
  refine h.standingAt_of_unvisited (fun b hb hPath => hOther ?_) now
  exact (Tree.exists_entry_iff h.own).mp ⟨b, ((h.mem_visited_iff hPath).mp hb).1⟩

/-- The pass that starts at an entry which the directory does not list passes it over if the
location is hidden, or if it makes nothing of it. -/
theorem standingAt_eq_passed_iff (hOther : ¬ t.IsListed p'.root own.2) (now : Table) :
    p'.standingAt t now (.text p'.root.text) = .passed ↔ p'.isHidden t = .ok true ∨
      ∀ b, t.attributes p'.root = .ok b → standing t p.volume now b = .passed := by
  obtain ⟨b, hSelf, hNoDirectory⟩ := h.clear.exists_attributes h.own
  obtain ⟨hidden, hHidden⟩ := p'.exists_isHidden h.clear
  cases hidden with
  | true => exact iff_of_true (standingAt_of_hidden hHidden now _) (.inl hHidden)
  | false =>
    have hb : b ∈ p'.visited t := by
      rw [Pass.mem_visited_iff, Walk.visits_of_attributes hSelf,
        Walk.below_of_file (hNoDirectory hOther)]
      exact ⟨hHidden, List.mem_singleton_self b⟩
    have hStanding := standingAt_of_mem h.tree h.absolute hb now
    rw [Tree.attributes_path hSelf, h.volume] at hStanding
    simp [hStanding, hHidden, hSelf]

/-! ## What both passes leave there -/

theorem isSwept_iff {r : Row} (hPath : r.cells .path = .text p'.root.text) :
    ((r.hasText .volumeName p.volume && Table.isUnder p.root r) = true ↔
      r.cells .volumeName = .text p.volume) ∧
    ((r.hasText .volumeName p'.volume && Table.isUnder p'.root r) = true ↔
      r.cells .volumeName = .text p.volume) := by
  rw [Pass.isSwept_iff h.absolute_root.1, Pass.isSwept_iff h.absolute, h.volume]
  exact ⟨and_iff_left ⟨_, hPath, h.covers⟩, and_iff_left ⟨_, hPath, .inl rfl⟩⟩

theorem cellsDue_of_passed (hPassed : p.standingAt t now (.text p'.root.text) = .passed)
    (hPassed' : p'.standingAt t now (.text p'.root.text) = .passed) :
    p'.cellsDue t now (.text p'.root.text) = p.cellsDue t now (.text p'.root.text) := by
  rw [cellsDue, cellsDue, hPassed, hPassed']
  cases hRow : now.rowOf? (.text p'.root.text) with
  | none => rfl
  | some r =>
    obtain ⟨hSwept, hSwept'⟩ := h.isSwept_iff (Table.mem_of_rowOf?_eq_some hRow).2
    have hSame := Bool.eq_iff_iff.mpr (hSwept'.trans hSwept.symm)
    simp only [Option.filter, hSame]

theorem cellsDue_eq (hListed : t.IsListed p'.root own.2) :
    p'.cellsDue t now (.text p'.root.text) = p.cellsDue t now (.text p'.root.text) := by
  have hSame := h.standingAt_eq hListed now
  cases hStanding : p.standingAt t now (.text p'.root.text) with
  | passed => exact h.cellsDue_of_passed hStanding (hSame.trans hStanding)
  | kept entry => simp only [cellsDue, hSame, hStanding]
  | taken record => simp only [cellsDue, hSame, hStanding]

/-- Where the pass over the directory passes the entry over, it leaves no row of its volume. -/
theorem volumeName_ne_of_cellsDue (hPassed : p.standingAt t now (.text p'.root.text) = .passed)
    {cells : Catalog.Column → Cell} (hCells : p.cellsDue t now (.text p'.root.text) = some cells) :
    cells .volumeName ≠ .text p.volume := by
  simp only [cellsDue, hPassed] at hCells
  obtain ⟨r, hRow, rfl⟩ := Option.map_eq_some_iff.mp hCells
  obtain ⟨hFound, hKept⟩ := Option.filter_eq_some_iff.mp hRow
  intro hVolume
  have hSwept := (h.isSwept_iff (Table.mem_of_rowOf?_eq_some hFound).2).1.mpr hVolume
  rw [hSwept] at hKept
  cases hKept

/-- What the pass from the entry keeps or takes in is a row of its volume. -/
theorem exists_cellsDue (hNow : now.Sound)
    (hStanding : p'.standingAt t now (.text p'.root.text) ≠ .passed) :
    ∃ cells, p'.cellsDue t now (.text p'.root.text) = some cells ∧
      cells .volumeName = .text p.volume := by
  rcases standingAt_cases t p' (.text p'.root.text) with ⟨a, -, hText, hAt⟩ | ⟨-, hAt⟩
  · rw [hAt] at hStanding
    rw [cellsDue, hAt]
    cases hCase : standing t p'.volume now a with
    | passed => exact absurd hCase hStanding
    | taken record => exact ⟨record.cells, rfl, h.volume ▸ volumeName_of_taken hCase⟩
    | kept entry =>
      obtain ⟨row, hRow, hVolume, -⟩ := row_of_kept hNow hCase
      exact ⟨row.cells, by rw [hText, hRow]; rfl, h.volume ▸ hVolume⟩
  · exact absurd (hAt now) hStanding

theorem cellsDue_eq_iff (hNow : now.Sound) (hOther : ¬ t.IsListed p'.root own.2) :
    p'.cellsDue t now (.text p'.root.text) = p.cellsDue t now (.text p'.root.text) ↔
      p'.standingAt t now (.text p'.root.text) = .passed := by
  have hPassed := h.standingAt_of_not_listed hOther now
  refine ⟨fun hSame => Classical.byContradiction fun hStanding => ?_, h.cellsDue_of_passed hPassed⟩
  obtain ⟨cells, hCells, hVolume⟩ := h.exists_cellsDue hNow hStanding
  exact h.volumeName_ne_of_cellsDue hPassed (hSame ▸ hCells) hVolume

end StartsAtEntry

end Pass

theorem Complete.exists_row_iff {middle after : Table} {walk sweep : List Call} {half full : Queue}
    (h : Complete t p before middle after walk sweep half full) (hBefore : before.Sound)
    (hRoot : p.root.IsAbsolute) (hFailed : full.failed = 0) {c volume : Cell} :
    (∃ r ∈ after.rows, r.cells .path = c ∧ r.cells .volumeName = volume) ↔
      ∃ cells, p.cellsDue t before c = some cells ∧ cells .volumeName = volume := by
  rw [← h.cells_eq hBefore hRoot hFailed]
  constructor
  · rintro ⟨r, hr, rfl, hVolume⟩
    exact ⟨r.cells, by rw [h.erases.sound.rowOf?_of_mem hr]; rfl, hVolume⟩
  · rintro ⟨cells, hCells, hVolume⟩
    obtain ⟨r, hRow, rfl⟩ := Option.map_eq_some_iff.mp hCells
    obtain ⟨hr, hPath⟩ := Table.mem_of_rowOf?_eq_some hRow
    exact ⟨r, hr, hPath, hVolume⟩

section

variable {path path' : Path} {told told' : Bool} {size size' : Int} {s s' : Store}

/-- A pass over a directory and one over an entry of it, from the same table and both without a
failure, leave the same at the path of the entry exactly if the directory lists the entry, or the
entry is a hidden location, or the second pass has nothing to keep or to take in for it. Of an entry
that is not listed the pass over the directory leaves no row, but the other pass does in just those
cases in which they differ. -/
theorem entry_agrees_iff (hEntry : Pass.StartsAtEntry t p p' name own) (hPath : path.IsProper)
    (hPath' : path'.IsProper) (hBefore : before.Sound)
    (hStart : Pass.start t path told size = .ok p)
    (hStart' : Pass.start t path' told' size' = .ok p')
    (hs : s.contents = .table before) (hs' : s'.contents = .table before)
    (hReturns : ((p.run t).run s).result.failure = none)
    (hReturns' : ((p'.run t).run s').result.failure = none)
    (hFailed : ((p.run t).run s).result.pass.queue.failed = 0)
    (hFailed' : ((p'.run t).run s').result.pass.queue.failed = 0) :
    ∃ after after', ((p.run t).run s).store.contents = .table after ∧
      ((p'.run t).run s').store.contents = .table after' ∧
      ((after'.rowOf? (.text p'.root.text)).map (·.cells) =
          (after.rowOf? (.text p'.root.text)).map (·.cells) ↔
        t.IsListed p'.root own.2 ∨ p'.isHidden t = .ok true ∨
          ∀ b, t.attributes p'.root = .ok b → standing t p.volume before b = .passed) ∧
      (¬ t.IsListed p'.root own.2 →
        (¬ ∃ r ∈ after.rows, r.cells .path = .text p'.root.text ∧
          r.cells .volumeName = .text p.volume) ∧
        ((∃ r ∈ after'.rows, r.cells .path = .text p'.root.text ∧
            r.cells .volumeName = .text p.volume) ↔
          ¬ (p'.isHidden t = .ok true ∨
            ∀ b, t.attributes p'.root = .ok b → standing t p.volume before b = .passed))) := by
  obtain ⟨after, middle, walk, sweep, half, hAfter, -, h⟩ :=
    complete_of_run hEntry.tree hPath hBefore hStart hs hReturns
  obtain ⟨after', middle', walk', sweep', half', hAfter', -, h'⟩ :=
    complete_of_run hEntry.tree hPath' hBefore hStart' hs' hReturns'
  have hRoot := hEntry.absolute_root.1
  refine ⟨after, after', hAfter, hAfter', ?_, fun hOther => ⟨?_, ?_⟩⟩
  · rw [h.cells_eq hBefore hRoot hFailed, h'.cells_eq hBefore hEntry.absolute hFailed']
    by_cases hListed : t.IsListed p'.root own.2
    · exact iff_of_true (hEntry.cellsDue_eq hListed) (.inl hListed)
    · rw [hEntry.cellsDue_eq_iff hBefore hListed, hEntry.standingAt_eq_passed_iff hListed,
        or_iff_right hListed]
  · rw [h.exists_row_iff hBefore hRoot hFailed]
    rintro ⟨cells, hCells, hVolume⟩
    exact hEntry.volumeName_ne_of_cellsDue (hEntry.standingAt_of_not_listed hOther before) hCells
      hVolume
  · rw [h'.exists_row_iff hBefore hEntry.absolute hFailed',
      ← hEntry.standingAt_eq_passed_iff hOther before]
    constructor
    · rintro ⟨cells, hCells, hVolume⟩ hPassed
      have hUnlisted := hEntry.standingAt_of_not_listed hOther before
      rw [hEntry.cellsDue_of_passed hUnlisted hPassed] at hCells
      exact hEntry.volumeName_ne_of_cellsDue hUnlisted hCells hVolume
    · exact hEntry.exists_cellsDue hBefore

end

/-! ## A pipe with the name of a playlist -/

def pipeTree : Tree :=
  ⟨.plain .directory, [(["m"], .plain .directory), (["m", "x.m3u"], .plain .fifo)]⟩

def pipe : Attributes := ⟨⟨.root, ["m", "x.m3u"]⟩, 0, Node.defaultTime, Node.defaultTime, false⟩

def pipePass : Pass := ⟨⟨.root, ["m", "x.m3u"]⟩, "/", false, .ofSize 32, .notStarted, .zero⟩

theorem pipeTree_wellFormed : pipeTree.WellFormed := ⟨by decide, by decide⟩

theorem pipe_isProper : Path.IsProper ⟨.root, ["m", "x.m3u"]⟩ := by decide

theorem pipeTree_start :
    Pass.start pipeTree ⟨.root, ["m"]⟩ false 32 = .ok playlistPass := by cbv

theorem pipe_start :
    Pass.start pipeTree ⟨.root, ["m", "x.m3u"]⟩ false 32 = .ok pipePass := by cbv

theorem pipeTree_reports : playlistPass.Reports pipeTree
    [.visit playlistDirectory, .leave ⟨.root, ["m"]⟩] := by
  refine ⟨by cbv, ?_, by decide +kernel⟩
  have hRoot : pipeTree.attributes playlistPass.root = .ok playlistDirectory := by cbv
  have hOpening : Walk.opening pipeTree playlistDirectory =
      .opened [.visit playlistDirectory] [] := by cbv
  rw [Walk.walk_of_attributes hRoot, Walk.preorder_of_opened hOpening]
  rfl

theorem pipe_attributes : pipeTree.attributes pipePass.root = .ok pipe := by cbv

theorem pipe_reports : pipePass.Reports pipeTree [.visit pipe] :=
  ⟨by cbv, Walk.walk_of_closed pipe_attributes (by cbv), by decide +kernel⟩

theorem pipe_starts_at_entry : Pass.StartsAtEntry pipeTree playlistPass pipePass "x.m3u"
    (["m", "x.m3u"], .plain .fifo) where
  tree := pipeTree_wellFormed
  clear := ⟨by decide, by decide⟩
  entered := ⟨playlistPass, playlistDirectory,
    by simp [pipeTree_reports.visited, Walk.Event.visited?], rfl, rfl⟩
  absolute := ⟨by decide, by decide, by decide⟩
  child := rfl
  own := by cbv
  volume := rfl

theorem entry_agrees_iff_pipe : ∃ after after',
    ((playlistPass.run pipeTree).run (.ofTable .empty 0)).store.contents = .table after ∧
      ((pipePass.run pipeTree).run (.ofTable .empty 0)).store.contents = .table after' ∧
      (¬ ∃ r ∈ after.rows, r.cells .path = .text "/m/x.m3u" ∧ r.cells .volumeName = .text "/") ∧
      ∃ r ∈ after'.rows, r.cells .path = .text "/m/x.m3u" ∧ r.cells .volumeName = .text "/" := by
  have hHealthy : (Store.ofTable .empty 0).Healthy := ⟨⟨rfl, rfl, rfl⟩, rfl, rfl⟩
  obtain ⟨hReturns, hFailed, -⟩ := clean_of_healthy (s := .ofTable .empty 0) pipeTree_wellFormed
    playlist_isProper Table.sound_empty pipeTree_start rfl hHealthy pipeTree_reports.quiet
    pipeTree_reports.storable Table.numbered_empty (by decide)
  obtain ⟨hReturns', hFailed', -⟩ := clean_of_healthy (s := .ofTable .empty 0) pipeTree_wellFormed
    pipe_isProper Table.sound_empty pipe_start rfl hHealthy pipe_reports.quiet
    pipe_reports.storable Table.numbered_empty (by decide)
  obtain ⟨after, after', hAfter, hAfter', -, hRows⟩ := entry_agrees_iff pipe_starts_at_entry
    playlist_isProper pipe_isProper Table.sound_empty pipeTree_start pipe_start rfl rfl hReturns
    hReturns' hFailed hFailed'
  have hOther : ¬ pipeTree.IsListed pipePass.root (Node.plain .fifo) := by
    rintro (hFile | hDirectory | ⟨hLink, -⟩)
    · cases hFile
    · cases hDirectory
    · cases hLink
  obtain ⟨hNone, hSome⟩ := hRows hOther
  refine ⟨after, after', hAfter, hAfter', hNone, hSome.mpr ?_⟩
  rintro (hHidden | hPassed)
  · rw [pipe_reports.visible] at hHidden
    cases hHidden
  · have hTaken : (standing pipeTree "/" .empty pipe).record?.isSome = true := by decide +kernel
    have hNothing : standing pipeTree "/" .empty pipe = .passed := hPassed pipe pipe_attributes
    rw [hNothing] at hTaken
    cases hTaken

end Reconcile

end MediaIndex
