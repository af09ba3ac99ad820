import MediaIndex.Proofs.WalkInside

/-!
# Trees without obstacles

Where no node puts an obstacle in the way, a lookup fails only because what it looks for is not
there, so every question for a path has an answer, and whether a location is hidden can always be
told. A directory that is no link then lists all that it holds.
-/

namespace MediaIndex

namespace Disk

/-- Nothing keeps the node from being examined, listed, searched or opened, and no name that is
looked for is one that it cannot hold. -/
structure Node.IsClear (n : Node) : Prop where
  stat : n.statObstacle = none
  listing : n.listObstacle = none
  search : n.searchObstacle = none
  opens : n.openObstacle = none
  refusals : n.refusals = []

instance : DecidablePred Node.IsClear := fun n =>
  decidable_of_iff (n.statObstacle = none ∧ n.listObstacle = none ∧ n.searchObstacle = none ∧
      n.openObstacle = none ∧ n.refusals.isEmpty = true)
    ⟨fun ⟨hStat, hListing, hSearch, hOpens, hRefusals⟩ =>
        ⟨hStat, hListing, hSearch, hOpens, List.isEmpty_iff.mp hRefusals⟩,
      fun ⟨hStat, hListing, hSearch, hOpens, hRefusals⟩ =>
        ⟨hStat, hListing, hSearch, hOpens, List.isEmpty_iff.mpr hRefusals⟩⟩

/-- The obstacle is that something is not there. -/
def Obstacle.IsAbsence (obstacle : Obstacle) : Prop :=
  ∃ r : Reason, obstacle = .reason r ∧ r.isAbsence = true

namespace Tree

structure IsClear (t : Tree) : Prop where
  root : t.root.IsClear
  nodes : ∀ entry ∈ t.nodes, entry.2.IsClear

variable {t : Tree}

theorem mem_nodes_of_node? {place : Place} {n : Node} (hSome : place ≠ [])
    (h : t.node? place = some n) : (place, n) ∈ t.nodes := by
  rw [node?, if_neg hSome] at h
  obtain ⟨before, after, hNodes, -⟩ := List.lookup_eq_some_iff.mp h
  rw [hNodes]
  exact List.mem_append_right _ List.mem_cons_self

theorem IsClear.node (h : t.IsClear) {place : Place} {n : Node} (hn : t.node? place = some n) :
    n.IsClear := by
  by_cases hRoot : place = []
  · rw [node?, if_pos hRoot] at hn
    exact Option.some.inj hn ▸ h.root
  · exact h.nodes _ (mem_nodes_of_node? hRoot hn)

/-! ## Lookups -/

theorem IsClear.enter (h : t.IsClear) {place : Place} {name : String} {obstacle : Obstacle}
    (hEnter : t.enter place name = .error obstacle) : obstacle.IsAbsence := by
  unfold Tree.enter at hEnter
  split at hEnter
  · cases hEnter
    exact ⟨_, rfl, rfl⟩
  · next here hNode =>
    rw [(h.node hNode).search, (h.node hNode).refusals] at hEnter
    split at hEnter
    · cases hEnter
      exact ⟨_, rfl, rfl⟩
    · dsimp only at hEnter
      split at hEnter
      · cases hEnter
      · split at hEnter
        · cases hEnter
        · cases hEnter
          exact ⟨_, rfl, rfl⟩

theorem IsClear.follow (h : t.IsClear) {links : Nat} {place : Place} {names : List String}
    {stop : DeadEnd} (hFollow : t.follow links place names = .error stop) :
    stop.obstacle.IsAbsence := by
  fun_induction Tree.follow t links place names with
  | case1 => cases hFollow
  | case2 links place name names obstacle hEnter =>
    cases hFollow
    exact h.enter hEnter
  | case3 links place name names next hEnter hLink ih => exact ih hFollow
  | case4 place name names next hEnter target hLink =>
    cases hFollow
    exact ⟨_, rfl, rfl⟩
  | case5 place name names next hEnter target hLink links ih => exact ih hFollow

theorem IsClear.place?_absence (h : t.IsClear) {names : List String} {stop : DeadEnd}
    (hPlace : t.place? names = .error stop) : stop.obstacle.IsAbsence := by
  unfold place? at hPlace
  cases hFollow : t.follow linkLimit [] names with
  | error other =>
    rw [hFollow] at hPlace
    obtain rfl := Except.error.inj hPlace
    exact h.follow hFollow
  | ok reached =>
    rw [hFollow] at hPlace
    cases hPlace

theorem found_eq_ok_iff {text : String} {result : Except DeadEnd Place} {target : Place × Node} :
    t.found text result = .ok target ↔
      result = .ok target.1 ∧ t.node? target.1 = some target.2 := by
  obtain ⟨place, node⟩ := target
  cases result with
  | error stop => simp [found]
  | ok reached =>
    cases hNode : t.node? reached with
    | none =>
      simp only [found, hNode]
      constructor
      · intro hFound
        cases hFound
      · rintro ⟨hPlace, hSome⟩
        rw [Except.ok.injEq] at hPlace
        rw [← hPlace, hNode] at hSome
        cases hSome
    | some other =>
      simp only [found, hNode, Except.ok.injEq, Prod.mk.injEq]
      constructor
      · rintro ⟨rfl, rfl⟩
        exact ⟨rfl, hNode⟩
      · rintro ⟨rfl, hSome⟩
        exact ⟨rfl, Option.some.inj (hNode.symm.trans hSome)⟩

theorem IsClear.readable (h : t.IsClear) {text : String} {target : Place × Node}
    (hNode : t.node? target.1 = some target.2) : Tree.readable text target = .ok target := by
  rw [Tree.readable, (h.node hNode).stat]

theorem IsClear.stat_eq_ok_iff (h : t.IsClear) {p : Path} {target : Place × Node} :
    t.stat p = .ok target ↔ t.place? p.names = .ok target.1 ∧ t.node? target.1 = some target.2 := by
  have hFound : t.locate p = .ok target ↔ _ := found_eq_ok_iff
  rw [Tree.stat, bind_eq_ok_iff, ← hFound]
  constructor
  · rintro ⟨located, hLocated, hReadable⟩
    rw [h.readable (found_eq_ok_iff.mp hLocated).2] at hReadable
    exact hReadable ▸ hLocated
  · intro hLocated
    exact ⟨target, hLocated, h.readable (found_eq_ok_iff.mp hLocated).2⟩

theorem IsClear.stat_eq_error (h : t.IsClear) {p : Path} {fault : Fault}
    (hStat : t.stat p = .error fault) : ∃ r, fault = .failed r p.text ∧ r.isAbsence = true := by
  cases hPlace : t.place? p.names with
  | error stop =>
    have hFault : t.stat p = .error (stop.obstacle.fault p.text) := by
      simp [Tree.stat, locate, found, hPlace, bind, Except.bind]
    obtain ⟨r, hObstacle, hAbsence⟩ := h.place?_absence hPlace
    rw [hFault, hObstacle] at hStat
    exact ⟨r, (Except.error.inj hStat).symm, hAbsence⟩
  | ok place =>
    cases hNode : t.node? place with
    | some node =>
      have hOk : t.stat p = .ok (place, node) := h.stat_eq_ok_iff.mpr ⟨hPlace, hNode⟩
      rw [hOk] at hStat
      cases hStat
    | none =>
      have hFault : t.stat p = .error (.failed .notFound p.text) := by
        simp [Tree.stat, locate, found, hPlace, hNode, bind, Except.bind]
      rw [hFault] at hStat
      exact ⟨.notFound, (Except.error.inj hStat).symm, rfl⟩

theorem IsClear.holds (h : t.IsClear) (p : Path) (question : Node → Bool) :
    ∃ answer, t.holds p question = .ok answer := by
  unfold Tree.holds
  cases hStat : t.stat p with
  | ok target => exact ⟨_, rfl⟩
  | error fault =>
    obtain ⟨r, rfl, hAbsence⟩ := h.stat_eq_error hStat
    exact ⟨false, if_pos hAbsence⟩

/-! ## What is no link -/

theorem exists_place_of_statOwn_child {p : Path} {name : String} {target : Place × Node}
    (h : t.statOwn (p.child name) = .ok target) : ∃ place, t.place? p.names = .ok place := by
  obtain ⟨located, hLocated, -⟩ := bind_eq_ok_iff.mp h
  obtain ⟨hOwn, -⟩ := found_eq_ok_iff.mp hLocated
  simp only [ownPlace?, Path.child, List.getLast?_append, List.getLast?_singleton,
    Option.some_or, List.dropLast_concat] at hOwn
  obtain ⟨place, hPlace, -⟩ := bind_eq_ok_iff.mp hOwn
  exact ⟨place, hPlace⟩

theorem node?_of_statOwn_child {p : Path} {place : Place} (hPlace : t.place? p.names = .ok place)
    {name : String} (hUp : name ≠ "..") {target : Place × Node}
    (h : t.statOwn (p.child name) = .ok target) : t.node? (place ++ [name]) = some target.2 := by
  obtain ⟨located, hLocated, hReadable⟩ := bind_eq_ok_iff.mp h
  have hNode := (locateOwn_child hPlace hUp hLocated).2
  rw [node_of_statOwn_child hPlace hUp hNode h]
  exact hNode

/-- What is no link is found whether a link would be followed or not. -/
theorem stat_of_statOwn {p : Path} (hp : p.IsAbsolute) {target : Place × Node}
    (h : t.statOwn p = .ok target) (hLink : target.2.isLink = false) : t.stat p = .ok target := by
  rcases List.eq_nil_or_concat p.names with hNames | ⟨front, last, hNames⟩
  · have hSame : t.place? p.names = t.ownPlace? p.names := by
      rw [hNames, place?, follow]
      rfl
    rw [stat, locate, hSame]
    exact h
  · rw [List.concat_eq_append] at hNames
    have hChild : p = p.parent.child last := by
      obtain ⟨anchor, names⟩ := p
      simp_all [Path.parent, Path.child]
    have hUp : last ≠ ".." := fun hEq => hp.settled (by simp [hNames, hEq])
    rw [hChild] at h ⊢
    obtain ⟨place, hPlace⟩ := exists_place_of_statOwn_child h
    rw [stat_child_of_ne_link hPlace hUp (node?_of_statOwn_child hPlace hUp h) hLink]
    exact h

/-! ## Listings -/

theorem mem_namesIn_of_node? {place : Place} {name : String} {n : Node} (hUp : name ≠ "..")
    (h : t.node? (place ++ [name]) = some n) : name ∈ t.namesIn place := by
  rw [namesIn, List.mem_mergeSort, List.mem_filterMap]
  exact ⟨_, mem_nodes_of_node? (by simp) h, by simp [hUp]⟩

theorem IsClear.list_eq (h : t.IsClear) {p : Path} {target : Place × Node}
    (hStat : t.stat p = .ok target) (hDirectory : target.2.isDirectory = true) :
    t.list p = .ok (target.1, t.namesIn target.1) := by
  obtain ⟨hPlace, hNode⟩ := h.stat_eq_ok_iff.mp hStat
  have hLocate : t.locate p = .ok target := found_eq_ok_iff.mpr ⟨hPlace, hNode⟩
  simp [list, hLocate, hDirectory, (h.node hNode).listing, bind, Except.bind, pure, Except.pure]

end Tree

end Disk

namespace Walk

open Disk

variable {t : Tree}

theorem exists_isHidden (h : t.IsClear) (d : Path) : ∃ hidden, isHidden t d = .ok hidden := by
  unfold isHidden
  split
  · exact ⟨true, rfl⟩
  · exact h.holds _ _

theorem exists_anyHidden (h : t.IsClear) (directories : List Path) :
    ∃ hidden, anyHidden t directories = .ok hidden := by
  induction directories with
  | nil => exact ⟨false, rfl⟩
  | cons d rest ih =>
    obtain ⟨hidden, hHidden⟩ := exists_isHidden h d
    obtain ⟨others, hOthers⟩ := ih
    refine ⟨hidden || others, ?_⟩
    rw [anyHidden, hHidden, hOthers]
    cases hidden <;> rfl

theorem exists_isHiddenLocation (h : t.IsClear) (d : Path) :
    ∃ hidden, isHiddenLocation t d = .ok hidden :=
  exists_anyHidden h _

theorem childAt_eq_some_iff {p : Path} {place : Place} {name : String} {n : Node}
    (hNode : t.node? (place ++ [name]) = some n) {c : Attributes} :
    childAt t p place name = some c ↔ t.entry (p.child name) n.kind = .ok (some c) := by
  rw [childAt, hNode, Option.bind_some]
  cases t.entry (p.child name) n.kind <;> simp

/-- A directory goes on with whatever it holds, unless the entry is one to pass over. -/
theorem mem_children_iff (h : t.IsClear) {p : Path} {target own : Place × Node}
    (hStat : t.stat p = .ok target) (hDirectory : target.2.isDirectory = true) {name : String}
    (hUp : name ≠ "..") (hOwn : t.statOwn (p.child name) = .ok own) {c : Attributes} :
    c ∈ children t p ∧ c.path = p.child name ↔
      t.entry (p.child name) own.2.kind = .ok (some c) := by
  obtain ⟨hPlace, -⟩ := h.stat_eq_ok_iff.mp hStat
  have hNode := Tree.node?_of_statOwn_child hPlace hUp hOwn
  rw [children_of_list (h.list_eq hStat hDirectory), List.mem_filterMap,
    ← childAt_eq_some_iff hNode]
  constructor
  · rintro ⟨⟨other, -, hChild⟩, hPath⟩
    have hName : other = name := by
      rw [← Path.name_child p other, ← childAt_path hChild, hPath, Path.name_child]
    exact hName ▸ hChild
  · intro hChild
    exact ⟨⟨name, Tree.mem_namesIn_of_node? hUp hNode, hChild⟩, childAt_path hChild⟩

end Walk

end MediaIndex
