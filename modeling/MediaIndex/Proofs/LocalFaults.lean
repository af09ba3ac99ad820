import Mathlib
import MediaIndex.Proofs.Lookups
import MediaIndex.Proofs.WalkInside
import MediaIndex.Proofs.WalkOrder

/-!
# What one fault costs a walk

An entry that cannot be examined, or a directory that cannot be listed, is found by every path that
found it before, and all else is as it was. So a walk goes on as before outside that entry, the links
to it, and what lies below. There is one exception: a marker is not missed by those who look for it
if examining it fails because nothing seems to be there, and then it no longer hides its directory.
-/

namespace MediaIndex

namespace Disk

/-- The node with these faults for whoever examines or lists it, beside those it has. -/
def Node.failing (stat listing : Option Reason) (n : Node) : Node :=
  { n with
    statObstacle := (stat.map Obstacle.reason).or n.statObstacle
    listObstacle := (listing.map Obstacle.reason).or n.listObstacle }

namespace Tree

/-- The tree in which examining or listing what stands at the place fails for these reasons. -/
def failingAt (t : Tree) (place : Place) (stat listing : Option Reason) : Tree :=
  t.mapNodes fun other n => if other = place then n.failing stat listing else n

/-- The path is that of the entry at the place, or of a link to it. -/
def leadsTo (t : Tree) (place : Place) (p : Path) : Bool :=
  t.place? p.names = .ok place ∨ t.ownPlace? p.names = .ok place

/-- The path lies at or below the entry at the place or a link to it. -/
def leadsInto (t : Tree) (place : Place) (p : Path) : Bool :=
  (p :: p.parents).any (t.leadsTo place)

variable {t : Tree} {place : Place} {p q : Path} {stat listing : Option Reason}

theorem leadsInto_iff : t.leadsInto place p = true ↔
    ∃ q, p.isUnder q = true ∧ t.leadsTo place q = true := by
  simp only [leadsInto, List.any_eq_true, List.mem_cons, Path.mem_parents_iff]

theorem leadsInto_of_isUnder (h : p.isUnder q = true) (hq : t.leadsInto place q = true) :
    t.leadsInto place p = true := by
  obtain ⟨above, hAbove, hLeads⟩ := leadsInto_iff.mp hq
  exact leadsInto_iff.mpr ⟨above, Path.isUnder_trans h hAbove, hLeads⟩

theorem not_leadsTo_of_not_leadsInto (h : t.leadsInto place p = false) :
    t.place? p.names ≠ .ok place ∧ t.ownPlace? p.names ≠ .ok place := by
  rw [leadsInto, List.any_cons, Bool.or_eq_false_iff, leadsTo, decide_eq_false_iff_not] at h
  exact not_or.mp h.1

theorem node?_failingAt (other : Place) : (t.failingAt place stat listing).node? other =
    (t.node? other).map fun n => if other = place then n.failing stat listing else n :=
  t.node?_mapNodes _ other

theorem namesIn_failingAt (other : Place) :
    (t.failingAt place stat listing).namesIn other = t.namesIn other :=
  t.namesIn_mapNodes _ other

theorem sameShape_failingAt : t.SameShape (t.failingAt place stat listing) :=
  t.sameShape_mapNodes fun other n => by split <;> rfl

theorem found_failingAt {result : Except DeadEnd Place} (h : result ≠ .ok place) (path : String) :
    (t.failingAt place stat listing).found path result = t.found path result := by
  cases result with
  | error stop => rfl
  | ok other =>
    have hOther : other ≠ place := fun hSame => h (hSame ▸ rfl)
    simp only [found, node?_failingAt, if_neg hOther, Option.map_id']

theorem locate_failingAt (h : t.place? p.names ≠ .ok place) :
    (t.failingAt place stat listing).locate p = t.locate p := by
  rw [locate, locate, sameShape_failingAt.place?, found_failingAt h]

theorem stat_failingAt (h : t.place? p.names ≠ .ok place) :
    (t.failingAt place stat listing).stat p = t.stat p := by
  rw [Tree.stat, Tree.stat, locate_failingAt h]

theorem statOwn_failingAt (h : t.ownPlace? p.names ≠ .ok place) :
    (t.failingAt place stat listing).statOwn p = t.statOwn p := by
  rw [statOwn, statOwn, locateOwn, locateOwn, sameShape_failingAt.ownPlace?, found_failingAt h]

theorem list_failingAt (h : t.place? p.names ≠ .ok place) :
    (t.failingAt place stat listing).list p = t.list p := by
  simp only [list, locate_failingAt h, namesIn_failingAt]

theorem attributes_failingAt (h : t.leadsInto place p = false) :
    (t.failingAt place stat listing).attributes p = t.attributes p := by
  obtain ⟨hPlace, hOwn⟩ := not_leadsTo_of_not_leadsInto h
  simp only [attributes, statOwn_failingAt hOwn, isFile?, holds, stat_failingAt hPlace]

theorem entry_failingAt (h : t.leadsInto place p = false) (kind : NodeKind) :
    (t.failingAt place stat listing).entry p kind = t.entry p kind := by
  obtain ⟨hPlace, hOwn⟩ := not_leadsTo_of_not_leadsInto h
  simp only [entry, linksToFile, statOwn_failingAt hOwn, stat_failingAt hPlace]

end Tree

end Disk

namespace Walk

open Disk

variable {t : Tree} {place : Place} {stat listing : Option Reason}

/-- What stands outside the entry, the links to it, and what lies below them. -/
def outside (t : Tree) (place : Place) (a : Attributes) : Bool := !t.leadsInto place a.path

theorem filter_childAt_of_leadsInto {p : Path} {name : String}
    (h : t.leadsInto place (p.child name) = true) (t' : Tree) (other : Place) :
    (childAt t' p other name).filter (outside t place) = none := by
  rw [Option.filter_eq_none_iff]
  intro c hc
  rw [outside, childAt_path hc, h]
  exact Bool.false_ne_true

theorem childAt_failingAt (p : Path) (other : Place) (name : String) :
    (childAt (t.failingAt place stat listing) p other name).filter (outside t place) =
      (childAt t p other name).filter (outside t place) := by
  cases hLeads : t.leadsInto place (p.child name) with
  | true => rw [filter_childAt_of_leadsInto hLeads, filter_childAt_of_leadsInto hLeads]
  | false =>
    have hKind : ∀ n : Node, (if other ++ [name] = place then n.failing stat listing else n).kind =
        n.kind := fun n => by split <;> rfl
    simp only [childAt, Tree.node?_failingAt, Option.bind_map, Function.comp_def, hKind,
      Tree.entry_failingAt hLeads]

theorem children_of_list_fault {p : Path} {fault : Fault} (h : t.list p = .error fault) :
    children t p = [] := by
  rw [children, Tree.entries, h]
  rfl

theorem children_failingAt {p : Path} (h : t.leadsInto place p = false) :
    (children (t.failingAt place stat listing) p).filter (outside t place) =
      (children t p).filter (outside t place) := by
  have hList : (t.failingAt place stat listing).list p = t.list p :=
    Tree.list_failingAt (Tree.not_leadsTo_of_not_leadsInto h).1
  cases hListed : t.list p with
  | error fault =>
    rw [children_of_list_fault (hList.trans hListed), children_of_list_fault hListed]
  | ok listed =>
    obtain ⟨other, names⟩ := listed
    rw [children_of_list (hList.trans hListed), children_of_list hListed, List.filter_filterMap,
      List.filter_filterMap]
    simp only [childAt_failingAt]

theorem exists?_ne_false {p : Path} {n : Node} (hPlace : t.place? p.names = .ok place)
    (hNode : t.node? place = some n)
    (hPresent : ∀ r, n.statObstacle = some (.reason r) → r.isAbsence = false) :
    t.exists? p ≠ .ok false := by
  have hStat : t.stat p = Tree.readable p.text (place, n) := by
    simp [Tree.stat, Tree.locate, Tree.found, hPlace, hNode, bind, Except.bind]
  rw [Tree.exists?, Tree.holds, hStat, Tree.readable]
  cases hObstacle : n.statObstacle with
  | none => simp
  | some obstacle =>
    cases obstacle with
    | reason r => simp [Obstacle.fault, hPresent r hObstacle]
    | interrupt => simp [Obstacle.fault]

/-- Whether a directory is entered does not depend on the fault, unless its marker is taken for
missing. -/
theorem isHidden_failingAt {d : Path} (hSound : ∀ n, t.node? place = some n → n.statObstacle = none)
    (hMarker : ∀ r, stat = some r → r.isAbsence = true →
      t.place? (d.child hidingMarker).names ≠ .ok place) :
    isHidden (t.failingAt place stat listing) d = .ok false ↔ isHidden t d = .ok false := by
  unfold isHidden
  split
  · rfl
  · by_cases hPlace : t.place? (d.child hidingMarker).names = .ok place
    · cases hNode : t.node? place with
      | none =>
        simp [Tree.exists?, Tree.holds, Tree.stat, Tree.locate, Tree.found,
          Tree.sameShape_failingAt.place?, hPlace, Tree.node?_failingAt, hNode]
      | some n =>
        have hObstacle := hSound n hNode
        refine iff_of_false (exists?_ne_false (Tree.sameShape_failingAt.place? _ ▸ hPlace)
          (n := n.failing stat listing) ?_ ?_) (exists?_ne_false hPlace hNode ?_)
        · rw [Tree.node?_failingAt, hNode, Option.map_some, if_pos rfl]
        · intro r hr
          rw [Node.failing, hObstacle, Option.or_none, Option.map_eq_some_iff] at hr
          obtain ⟨r', hReason, hSame⟩ := hr
          rw [← Obstacle.reason.inj hSame, Bool.eq_false_iff]
          exact fun hAbsence => hMarker r' hReason hAbsence hPlace
        · intro r hr
          cases hObstacle.symm.trans hr
    · rw [Tree.exists?, Tree.exists?, Tree.holds, Tree.holds, Tree.stat_failingAt hPlace]

/-- A marker that is taken for missing does not hide its directory. -/
theorem isHidden_of_absence {r : Reason} {d : Path} (hAbsence : r.isAbsence = true)
    (hName : Media.isDotName d.name = false)
    (hPlace : t.place? (d.child hidingMarker).names = .ok place) :
    isHidden (t.failingAt place (some r) listing) d = .ok false := by
  rw [isHidden, if_neg (by simp [hName]), Tree.exists?, Tree.holds, Tree.stat, Tree.locate,
    Tree.sameShape_failingAt.place?, hPlace, Tree.found, Tree.node?_failingAt]
  cases t.node? place with
  | none => rfl
  | some n => simp [Tree.readable, Node.failing, Obstacle.fault, hAbsence, bind, Except.bind]

/-! ## The walk outside the entry -/

theorem filter_below_of_leadsInto {a : Attributes} (h : t.leadsInto place a.path = true) (t' : Tree) :
    (below t' a).filter (outside t place) = [] := by
  rw [List.filter_eq_nil_iff]
  intro b hb
  rw [outside, Tree.leadsInto_of_isUnder (mem_below_iff.mp hb).isUnder h]
  exact Bool.false_ne_true

/-- Outside the entry only the entries that stand there themselves count. -/
theorem filter_flatMap_below (t' : Tree) (entries : List Attributes) :
    (entries.flatMap (below t')).filter (outside t place) =
      (entries.filter (outside t place)).flatMap fun c => (below t' c).filter (outside t place) := by
  induction entries with
  | nil => rfl
  | cons c entries ih =>
    rw [List.flatMap_cons, List.filter_append, ih]
    cases hLeads : t.leadsInto place c.path with
    | true => simp [outside, hLeads, filter_below_of_leadsInto hLeads t']
    | false => simp [outside, hLeads]

theorem below_failingAt (hSound : ∀ n, t.node? place = some n → n.statObstacle = none)
    (hMarker : ∀ r, stat = some r → r.isAbsence = true →
      ∀ d : Path, t.place? (d.child hidingMarker).names ≠ .ok place) (a : Attributes) :
    (below (t.failingAt place stat listing) a).filter (outside t place) =
      (below t a).filter (outside t place) := by
  induction a using entry_induction (t := t) with
  | step a ih =>
    cases hLeads : t.leadsInto place a.path with
    | true => rw [filter_below_of_leadsInto hLeads, filter_below_of_leadsInto hLeads]
    | false =>
      cases hDirectory : a.isDirectory with
      | false => rw [below_of_file hDirectory, below_of_file hDirectory]
      | true =>
        have hHidden : isHidden (t.failingAt place stat listing) a.path = .ok false ↔
            isHidden t a.path = .ok false :=
          isHidden_failingAt hSound fun r hr hAbsence => hMarker r hr hAbsence a.path
        by_cases hVisible : isHidden t a.path = .ok false
        · rw [below_of_directory hDirectory hVisible,
            below_of_directory hDirectory (hHidden.mpr hVisible), List.filter_cons, List.filter_cons,
            filter_flatMap_below, filter_flatMap_below, children_failingAt hLeads,
            List.flatMap_congr fun c hc => ih hDirectory c (List.mem_filter.mp hc).1]
        · rw [below_of_not_open fun hOpen => hVisible (hOpen hDirectory),
            below_of_not_open fun hOpen => hVisible (hHidden.mp (hOpen hDirectory))]

theorem visits_failingAt (hSound : ∀ n, t.node? place = some n → n.statObstacle = none)
    (hMarker : ∀ r, stat = some r → r.isAbsence = true →
      ∀ d : Path, t.place? (d.child hidingMarker).names ≠ .ok place) (root : Path) :
    (visits (t.failingAt place stat listing) root).filter (outside t place) =
      (visits t root).filter (outside t place) := by
  cases hLeads : t.leadsInto place root with
  | true =>
    have hNone : ∀ t' : Tree, (visits t' root).filter (outside t place) = [] := by
      intro t'
      rw [List.filter_eq_nil_iff]
      intro b hb
      rw [outside, Tree.leadsInto_of_isUnder (isUnder_of_mem_visits hb) hLeads]
      exact Bool.false_ne_true
    rw [hNone, hNone]
  | false =>
    have hSame : (t.failingAt place stat listing).attributes root = t.attributes root :=
      Tree.attributes_failingAt hLeads
    cases hRoot : t.attributes root with
    | error fault => rw [visits_of_fault hRoot, visits_of_fault (hSame.trans hRoot)]
    | ok a =>
      rw [visits_of_attributes hRoot, visits_of_attributes (hSame.trans hRoot),
        below_failingAt hSound hMarker]

/-- The walk is the recursion in order, and what one fault costs stays where it is. -/
structure InOrder (t : Tree) (root : Path) : Prop where
  unread : ∀ fault, t.attributes root = .error fault → walk t root = [.failed root fault]
  loop : ∀ a, t.attributes root = .ok a →
    walk t root = preorder t a ∧ ∃ n, turns t n [.enter a] = (preorder t a, [])
  recursion : ∀ a, preorder t a =
    if a.isDirectory then
      match isHidden t a.path with
      | .error fault => [.failed a.path fault]
      | .ok true => [.hidden a.path]
      | .ok false =>
        .visit a :: (listingFaults t a.path).map (fun sight => .failed sight.1 sight.2) ++
          (children t a.path).flatMap (preorder t) ++ [.leave a.path]
    else [.visit a]
  increasing : ∀ p, ((children t p).map (·.path.name)).Pairwise (· < ·)
  once : ((visits t root).map (·.path)).Nodup
  enclosed : ∀ b ∈ visits t root, b.isDirectory = true → Encloses (walk t root) b
  left : ∀ p, .leave p ∈ walk t root → ∃ b ∈ visits t root, b.isDirectory = true ∧ b.path = p
  faults : ∀ place stat listing, (∀ n, t.node? place = some n → n.statObstacle = none) →
    (∀ r, stat = some r → r.isAbsence = true →
      ∀ d : Path, t.place? (d.child hidingMarker).names ≠ .ok place) →
    (visits (t.failingAt place stat listing) root).filter (outside t place) =
      (visits t root).filter (outside t place)
  unmarked : ∀ place r listing (d : Path), r.isAbsence = true →
    Media.isDotName d.name = false → t.place? (d.child hidingMarker).names = .ok place →
      isHidden (t.failingAt place (some r) listing) d = .ok false

theorem walk_inOrder (hTree : t.WellFormed) (root : Path) : InOrder t root where
  unread fault h := by rw [walk, h]
  loop a h := by
    obtain ⟨n, hn⟩ := exists_turns (t := t) [.enter a]
    have hRun : workOff t [.enter a] = preorder t a := by simp [workOff_enter_cons, workOff]
    exact ⟨walk_of_attributes h, n, hRun ▸ hn⟩
  recursion := preorder_eq t
  increasing := children_increasing hTree
  once := nodup_visits_paths hTree root
  enclosed b hb hDirectory := by
    obtain ⟨a, hRoot, hBelow⟩ := attributes_of_mem_visits hb
    rw [walk_of_attributes hRoot]
    exact (mem_below_iff.mp hBelow).encloses hTree hDirectory
  left p hLeave := by
    cases hRoot : t.attributes root with
    | error fault =>
      rw [walk, hRoot] at hLeave
      cases List.mem_singleton.mp hLeave
    | ok a =>
      rw [walk_of_attributes hRoot] at hLeave
      obtain ⟨b, hb, hRest⟩ := exists_reaches_of_leave hLeave
      exact ⟨b, visits_of_attributes hRoot ▸ mem_below_iff.mpr hb, hRest⟩
  faults _ _ _ hSound hMarker := visits_failingAt hSound hMarker root
  unmarked _ _ _ _ hAbsence hName hPlace := isHidden_of_absence hAbsence hName hPlace

-- As for other walks that are evaluated, the whole library is imported for the walk of this tree.

/-- A directory with a marker, a file, and a link to the file. -/
def markerTree : Tree :=
  ⟨.plain .directory, [(["d"], .plain .directory), (["d", ".nomedia"], .plain .file),
    (["a.m3u"], .plain .file), (["l.m3u"], { Node.plain .link with target := "/a.m3u" })]⟩

def entryAt (names : List String) (kind : NodeKind) : Attributes :=
  .ofNode ⟨.root, names⟩ (.plain kind) (kind == .directory)

theorem walk_inOrder_marker : markerTree.WellFormed ∧ InOrder markerTree .root ∧
    (visits (markerTree.failingAt ["a.m3u"] (some .ioError) none) .root).filter
      (outside markerTree ["a.m3u"]) =
        (visits markerTree .root).filter (outside markerTree ["a.m3u"]) := by
  have hTree : markerTree.WellFormed := ⟨by decide, by decide⟩
  have hOrder := walk_inOrder hTree .root
  refine ⟨hTree, hOrder, hOrder.faults _ _ _ ?_ ?_⟩
  · intro n hn
    have hNode : markerTree.node? ["a.m3u"] = some (.plain .file) := rfl
    rw [← Option.some.inj (hNode.symm.trans hn)]
    rfl
  · rintro r hr hAbsence
    cases hr
    cases hAbsence

/-- A marker that cannot be examined may count as missing, and a link to a file fails with it: both
show outside the entry that has the fault. -/
theorem faults_cross_entries :
    (∃ b ∈ visits (markerTree.failingAt ["d", ".nomedia"] (some .tooManyLinks) none) .root,
      b.path.isUnder ⟨.root, ["d", ".nomedia"]⟩ = false ∧ b ∉ visits markerTree .root) ∧
    ∃ b ∈ visits markerTree .root, b.path.isUnder ⟨.root, ["a.m3u"]⟩ = false ∧
      b ∉ visits (markerTree.failingAt ["a.m3u"] (some .ioError) none) .root := by
  have hVisited : ∀ t' : Tree, ∀ b : Attributes,
      t'.attributes .root = .ok (entryAt [] .directory) → isHidden t' .root = .ok false →
        b ∈ children t' .root → IsOpen t' b → b ∈ visits t' .root := by
    intro t' b hRoot hVisible hb hOpen
    rw [visits_of_attributes hRoot, mem_below_iff]
    exact .inside rfl (fun _ => hVisible) hb (.here hOpen)
  have hChildren : children markerTree .root =
      [entryAt ["a.m3u"] .file, entryAt ["d"] .directory, entryAt ["l.m3u"] .file] := by cbv
  refine ⟨⟨entryAt ["d"] .directory, ?_, by decide, ?_⟩,
    ⟨entryAt ["l.m3u"] .file, ?_, by decide, ?_⟩⟩
  · refine hVisited _ _ (by cbv) (by cbv) ?_ fun _ => by cbv
    -- The directory stands outside the marker, so the fault does not change that it is listed.
    have hListed : entryAt ["d"] .directory ∈
        (children (markerTree.failingAt ["d", ".nomedia"] (some .tooManyLinks) none) .root).filter
          (outside markerTree ["d", ".nomedia"]) := by
      rw [children_failingAt (by cbv), hChildren]
      exact List.mem_filter.mpr ⟨by decide, by cbv⟩
    exact (List.mem_filter.mp hListed).1
  · intro hb
    obtain ⟨a, hRoot, hBelow⟩ := attributes_of_mem_visits hb
    have hReaches := mem_below_iff.mp hBelow
    have hVisible := hReaches.isHidden_eq_false (Path.isUnder_refl _) hReaches.isUnder (.inl rfl)
    have hMarked : isHidden markerTree ⟨.root, ["d"]⟩ = .ok true := by cbv
    cases hMarked.symm.trans hVisible
  · refine hVisited _ _ (by cbv) (by cbv) ?_ fun hDirectory => absurd hDirectory Bool.false_ne_true
    rw [hChildren]
    decide
  · intro hb
    obtain ⟨a, hRoot, hBelow⟩ := attributes_of_mem_visits hb
    rcases (mem_below_iff.mp hBelow).eq_or_mem_children with rfl | ⟨p, hChild⟩
    · cases Tree.attributes_path hRoot
    · obtain ⟨target, hStat, -⟩ := stat_of_mem_children hChild
      have hFails : (markerTree.failingAt ["a.m3u"] (some .ioError) none).stat ⟨.root, ["l.m3u"]⟩ =
          .error (.failed .ioError "/l.m3u") := by cbv
      cases hFails.symm.trans hStat

end Walk

end MediaIndex
