import Mathlib.Data.List.Induction
import MediaIndex.Proofs.CleanPass
import MediaIndex.Proofs.ClearTrees
import MediaIndex.Proofs.PathReading

/-!
# What is hidden is left out

A pass looks at every directory above its root before it walks, and at each directory below when it
comes to it. Together this is the policy for locations: a directory is entered exactly if neither it
nor any directory above it is hidden. What a pass leaves in the catalog is therefore nowhere in a
hidden directory, whatever stood there before.
-/

namespace MediaIndex

/-- Whatever holds of a path, and of a child as soon as it holds of its parent, holds of all paths
at or below. -/
@[elab_as_elim]
theorem Path.isUnder_induction {root : Path} {motive : Path → Prop} (here : motive root)
    (child : ∀ d name, d.isUnder root = true → motive d → motive (d.child name)) {d : Path}
    (h : d.isUnder root = true) : motive d := by
  obtain ⟨anchor, names⟩ := d
  obtain ⟨rfl, more, rfl⟩ := isUnder_iff.mp h
  clear h
  induction more using List.reverseRecOn with
  | nil => simpa using here
  | append_singleton more name ih =>
    have hUnder : (⟨root.anchor, root.names ++ more⟩ : Path).isUnder root = true :=
      isUnder_iff.mpr ⟨rfl, List.prefix_append _ _⟩
    simpa [Path.child] using child _ name hUnder ih

theorem Path.IsAbsolute.of_child {p : Path} {name : String} (h : (p.child name).IsAbsolute) :
    p.IsAbsolute ∧ name ≠ ".." where
  left := ⟨h.anchored, fun other hOther => h.proper other (List.mem_append_left _ hOther),
    fun hUp => h.settled (List.mem_append_left _ hUp)⟩
  right := fun hUp => h.settled (by simp [Path.child, hUp])

theorem Path.child_isUnder (p : Path) (name : String) : (p.child name).isUnder p = true :=
  isUnder_iff.mpr ⟨rfl, List.prefix_append p.names [name]⟩

namespace Disk

theorem Node.isLink_of_isDirectory {n : Node} (h : n.isDirectory = true) : n.isLink = false := by
  rw [Node.isDirectory, beq_iff_eq] at h
  rw [Node.isLink, h]
  rfl

/-- There is a directory at the path, and no link to one. -/
def Tree.IsRealDirectory (t : Tree) (p : Path) : Prop :=
  ∃ target, t.statOwn p = .ok target ∧ target.2.isDirectory = true

theorem Tree.IsRealDirectory.stat {t : Tree} {p : Path} (h : t.IsRealDirectory p)
    (hp : p.IsAbsolute) : ∃ target, t.stat p = .ok target ∧ target.2.isDirectory = true := by
  obtain ⟨target, hOwn, hDirectory⟩ := h
  exact ⟨target, stat_of_statOwn hp hOwn (Node.isLink_of_isDirectory hDirectory), hDirectory⟩

end Disk

namespace Walk

open Disk

variable {t : Tree} {root : Path}

theorem isHidden_eq_false_iff {d : Path} : isHidden t d = .ok false ↔
    Media.isDotName d.name = false ∧ t.exists? (d.child hidingMarker) = .ok false := by
  unfold isHidden
  split
  · next hDot => simp [hDot]
  · next hDot => simp [hDot]

theorem mem_children_of_directory (hClear : t.IsClear) {p : Path} (hp : p.IsAbsolute)
    (hReal : t.IsRealDirectory p) {name : String} (hUp : name ≠ "..") {own : Place × Node}
    (hOwn : t.statOwn (p.child name) = .ok own) (hDirectory : own.2.isDirectory = true) :
    Attributes.ofNode (p.child name) own.2 true ∈ children t p := by
  obtain ⟨target, hStat, hTarget⟩ := hReal.stat hp
  refine ((mem_children_iff hClear hStat hTarget hUp hOwn).mpr ?_).1
  have hKind : own.2.kind = .directory := by simpa [Node.isDirectory] using hDirectory
  simp [Tree.entry, hKind, hOwn, bind, Except.bind, pure, Except.pure]

/-- A walk comes to every directory below its root on whose way there is neither a link nor a
hidden directory. -/
theorem exists_visit_of_visible (hClear : t.IsClear) {d : Path} (hUnder : d.isUnder root = true) :
    d.IsAbsolute →
      (∀ e, d.isUnder e = true → e.isUnder root = true → t.IsRealDirectory e) →
      (∀ e, d.isUnder e = true → isHidden t e = .ok false) →
      ∃ a ∈ visits t root, a.path = d ∧ a.isDirectory = true := by
  refine Path.isUnder_induction ?_ ?_ hUnder
  · intro _ hReal hVisible
    obtain ⟨own, hOwn, hDirectory⟩ := hReal root (Path.isUnder_refl root) (Path.isUnder_refl root)
    have hRoot := Tree.attributes_of_ne_link hOwn (Node.isLink_of_isDirectory hDirectory)
    refine ⟨.ofNode root own.2 own.2.isDirectory, ?_, rfl, hDirectory⟩
    rw [visits_of_attributes hRoot, mem_below_iff]
    exact .here fun _ => hVisible root (Path.isUnder_refl root)
  · intro d name hUnder ih hAbsolute hReal hVisible
    obtain ⟨hd, hUp⟩ := hAbsolute.of_child
    have hChild := d.child_isUnder name
    obtain ⟨a, ha, rfl, hDirectory⟩ := ih hd
      (fun e hAbove => hReal e (Path.isUnder_trans hChild hAbove))
      fun e hAbove => hVisible e (Path.isUnder_trans hChild hAbove)
    obtain ⟨own, hOwn, hOwnDirectory⟩ := hReal (a.path.child name) (Path.isUnder_refl _)
      (Path.isUnder_trans hChild hUnder)
    have hc := mem_children_of_directory hClear hd (hReal a.path hChild hUnder) hUp hOwn
      hOwnDirectory
    refine ⟨.ofNode (a.path.child name) own.2 true, ?_, rfl, rfl⟩
    obtain ⟨first, hRoot, hBelow⟩ := attributes_of_mem_visits ha
    rw [visits_of_attributes hRoot, mem_below_iff]
    refine (mem_below_iff.mp hBelow).trans (.inside hDirectory (fun _ => hVisible _ hChild) hc ?_)
    exact .here fun _ => hVisible _ (Path.isUnder_refl _)

end Walk

namespace Reconcile

open Catalog (Row Store Table)
open Disk (Attributes Tree)

variable {t : Tree} {p : Pass}

theorem Pass.isHidden_of_directory (h : p.isHidden t = .ok false)
    (hDirectory : t.isDirectory? p.root = .ok true) {d : Path}
    (hAbove : p.root.isUnder d = true) : Walk.isHidden t d = .ok false := by
  have hStart : p.startDirectory t = .ok p.root := by
    rw [startDirectory, hDirectory]
    rfl
  rw [isHidden, hStart] at h
  exact Walk.isHiddenLocation_eq_false_iff.mp h d hAbove

/-- No directory on the way to a visited entry is hidden, nor is the entry if it is a directory or
leads to one. -/
theorem Pass.isHidden_of_mem_visited {a : Attributes} (ha : a ∈ p.visited t) {d : Path}
    (hAbove : a.path.isUnder d = true) (hOwn : d = a.path → t.isDirectory? a.path = .ok true) :
    Walk.isHidden t d = .ok false := by
  -- The pass from the entry itself is visible, too.
  have hVisible : Pass.isHidden t { p with root := a.path } = .ok false := isHidden_inside ha rfl
  rcases Path.eq_or_parent_isUnder hAbove with rfl | hParent
  · exact isHidden_of_directory hVisible (hOwn rfl) hAbove
  · exact isHidden_above hVisible hParent

/-- A directory at or below the root, not reached through a link, is entered exactly if neither it
nor any directory above it is hidden. -/
theorem Pass.entered_iff (hClear : t.IsClear) (hRoot : p.root.IsAbsolute) {d : Path}
    (hd : d.IsAbsolute) (hUnder : d.isUnder p.root = true)
    (hReal : ∀ e, d.isUnder e = true → e.isUnder p.root = true → t.IsRealDirectory e) :
    (∃ a ∈ p.visited t, a.path = d ∧ a.isDirectory = true) ↔
      Walk.isHiddenLocation t d = .ok false := by
  rw [Walk.isHiddenLocation_eq_false_iff]
  constructor
  · rintro ⟨a, ha, rfl, -⟩ e hAbove
    obtain ⟨target, hStat, hDirectory⟩ :=
      (hReal a.path (Path.isUnder_refl _) hUnder).stat hd
    exact isHidden_of_mem_visited ha hAbove fun _ => hDirectory ▸ Tree.isDirectory?_of_stat hStat
  · intro hVisible
    obtain ⟨target, hStat, hDirectory⟩ := (hReal p.root hUnder (Path.isUnder_refl _)).stat hRoot
    have hStart : p.startDirectory t = .ok p.root := by
      rw [startDirectory, Tree.isDirectory?_of_stat hStat, hDirectory]
      rfl
    have hHidden : p.isHidden t = .ok false := by
      rw [isHidden, hStart]
      exact Walk.isHiddenLocation_eq_false_iff.mpr fun e hAbove =>
        hVisible e (Path.isUnder_trans hUnder hAbove)
    obtain ⟨a, ha, hPath⟩ := Walk.exists_visit_of_visible hClear hUnder hd hReal hVisible
    exact ⟨a, mem_visited_iff.mpr ⟨hHidden, ha⟩, hPath⟩

/-- A pass enters a directory that no link leads to exactly if the location is not hidden. If it
returns and loses no batch, no row of its volume at or below its root is then one of a hidden
directory or has a hidden directory on its way, up to the root of the disk, whatever the table held
before. -/
theorem hidden_left_out {path : Path} {told : Bool} {size : Int} (hTree : t.WellFormed)
    (hPath : path.IsProper) (hStart : Pass.start t path told size = .ok p) :
    (t.IsClear → ∀ d : Path, d.IsAbsolute → d.isUnder p.root = true →
      (∀ e, d.isUnder e = true → e.isUnder p.root = true → t.IsRealDirectory e) →
      ∃ hidden, Walk.isHiddenLocation t d = .ok hidden ∧
        ((∃ a ∈ p.visited t, a.path = d ∧ a.isDirectory = true) ↔ hidden = false)) ∧
    ∀ (before : Table) (s : Store), before.Sound → s.contents = .table before →
      ((p.run t).run s).result.failure = none →
      ((p.run t).run s).result.pass.queue.failed = 0 →
      ∃ after, ((p.run t).run s).store.contents = .table after ∧
        ∀ r ∈ after.rows, Table.IsOf p.volume p.root r → ∀ text, r.cells .path = .text text →
          ∀ d, (Path.ofText text).isUnder d = true →
            (d = Path.ofText text → t.isDirectory? d = .ok true) →
            Media.isDotName d.name = false ∧
              t.exists? (d.child Walk.hidingMarker) = .ok false := by
  have hRoot : p.root.IsAbsolute := (Pass.start_eq_ok hStart).2 ▸ hPath.absolute
  constructor
  · intro hClear d hd hUnder hReal
    obtain ⟨hidden, hHidden⟩ := Walk.exists_isHiddenLocation hClear d
    refine ⟨hidden, hHidden, ?_⟩
    rw [Pass.entered_iff hClear hRoot hd hUnder hReal, hHidden, Except.ok.injEq]
  · intro before s hBefore hs hReturns hFailed
    obtain ⟨after, middle, walk, sweep, half, hAfter, -, h⟩ :=
      complete_of_run hTree hPath hBefore hStart hs hReturns
    refine ⟨after, hAfter, ?_⟩
    intro r hr hIsOf text hText d hAbove hOwn
    obtain ⟨a, ha, hPathText, -⟩ := h.confirmed_of_isOf hBefore hRoot hFailed hr hIsOf
    have ha' := Walk.isAbsolute_of_mem_visits hTree hRoot (Pass.mem_visits_of_mem_visited ha)
    have hRead : Path.ofText text = a.path := by
      rw [Catalog.Cell.text.inj (hText.symm.trans hPathText), ha'.ofText_text]
    rw [hRead] at hAbove hOwn
    exact Walk.isHidden_eq_false_iff.mp
      (Pass.isHidden_of_mem_visited ha hAbove fun hSame => hSame ▸ hOwn hSame)

/-! ## A directory that was marked -/

/-- One of two directories holds a marker now. -/
def markedTree : Tree :=
  ⟨.plain .directory, [(["m"], .plain .directory), (["m", "h"], .plain .directory),
    (["m", "h", ".nomedia"], .plain .file), (["m", "h", "b.m3u"], .plain .file)]⟩

theorem markedTree_wellFormed : markedTree.WellFormed := ⟨by decide, by decide⟩

theorem markedTree_clear : markedTree.IsClear := ⟨by decide, by decide⟩

theorem markedTree_start :
    Pass.start markedTree ⟨.root, ["m"]⟩ false 32 = .ok playlistPass := by cbv

theorem markedTree_reports : playlistPass.Reports markedTree
    [.visit playlistDirectory, .hidden ⟨.root, ["m", "h"]⟩, .leave ⟨.root, ["m"]⟩] := by
  refine ⟨by cbv, ?_, by decide +kernel⟩
  have hRoot : markedTree.attributes playlistPass.root = .ok playlistDirectory := by cbv
  have hOuter : Walk.opening markedTree playlistDirectory = .opened [.visit playlistDirectory]
      [⟨⟨.root, ["m", "h"]⟩, 4096, Disk.Node.defaultTime, Disk.Node.defaultTime, true⟩] := by cbv
  rw [Walk.walk_of_attributes hRoot, Walk.preorder_of_opened hOuter, List.flatMap_singleton,
    Walk.preorder_of_closed (by cbv)]
  rfl

/-- A table from before the directory was marked. -/
def unmarkedTable : Table := ⟨[outdatedRow 4 "/m/h/b.m3u"], 6⟩

theorem hidden_left_out_marked :
    (¬ ∃ a ∈ playlistPass.visited markedTree,
      a.path = ⟨.root, ["m", "h"]⟩ ∧ a.isDirectory = true) ∧
    ∃ after, ((playlistPass.run markedTree).run (.ofTable unmarkedTable 0)).store.contents =
        .table after ∧
      ∀ r ∈ after.rows, r.cells .volumeName = .text "/" → r.cells .path ≠ .text "/m/h/b.m3u" := by
  have hBefore : unmarkedTable.Sound := ⟨by decide, by decide, by decide⟩
  have hNumbered : unmarkedTable.Numbered 6 := ⟨by decide, by decide, by decide⟩
  obtain ⟨hReturns, hFailed, -⟩ := clean_of_healthy (s := .ofTable unmarkedTable 0)
    markedTree_wellFormed playlist_isProper hBefore markedTree_start rfl ⟨⟨rfl, rfl, rfl⟩, rfl, rfl⟩
    markedTree_reports.quiet markedTree_reports.storable hNumbered (by decide)
  obtain ⟨hEntered, hCataloged⟩ := hidden_left_out markedTree_wellFormed playlist_isProper
    markedTree_start
  constructor
  · obtain ⟨hidden, hHidden, hIff⟩ := hEntered markedTree_clear ⟨.root, ["m", "h"]⟩
      ⟨by decide, by decide, by decide⟩ (by decide) (by
        intro e hAbove hUnder
        rcases Path.eq_or_parent_isUnder hAbove with rfl | hParent
        · exact ⟨(["m", "h"], .plain .directory), by cbv, rfl⟩
        · rw [Path.isUnder_antisymm hUnder hParent]
          exact ⟨(["m"], .plain .directory), by cbv, rfl⟩)
    have hMarked : Walk.isHiddenLocation markedTree ⟨.root, ["m", "h"]⟩ = .ok true := by cbv
    rw [hMarked, Except.ok.injEq] at hHidden
    rw [hIff, ← hHidden]
    decide
  · obtain ⟨after, hAfter, hRows⟩ := hCataloged unmarkedTable (.ofTable unmarkedTable 0) hBefore rfl
      hReturns hFailed
    refine ⟨after, hAfter, fun r hr hVolume hPath => ?_⟩
    have hIsOf : Table.IsOf playlistPass.volume playlistPass.root r :=
      ⟨hVolume, _, hPath, .inr (by decide)⟩
    have hMarker := (hRows r hr hIsOf _ hPath ⟨.root, ["m", "h"]⟩ (by decide) (by decide)).2
    have hExists : markedTree.exists? ⟨.root, ["m", "h", ".nomedia"]⟩ = .ok true := by cbv
    rw [Path.child, Walk.hidingMarker, List.cons_append, List.singleton_append, hExists] at hMarker
    cases hMarker

end Reconcile

end MediaIndex
