import MediaIndex.Disk.Listing

/-!
# Entries lie deeper

The room below a path counts how far the tree goes on from the place that the path leads to. A
directory among the entries of a directory has less room below it, so a walk that enters directories
comes to an end, whatever links stand on the way to its root.
-/

namespace MediaIndex.Disk.Tree

theorem follow_append (t : Tree) (links : Nat) (place : Place) (xs ys : List String) :
    t.follow links place (xs ++ ys) =
      match t.follow links place xs with
      | .ok (p, l) => t.follow l p ys
      | .error stop => .error ⟨stop.obstacle, stop.place, stop.ahead ++ ys⟩ := by
  fun_induction follow t links place xs with
  | case1 => simp
  | case2 links place name names obstacle h =>
    rw [List.cons_append, follow, h]
    simp
  | case3 links place name names next h hlink ih =>
    rw [List.cons_append, follow, h]
    simp only [hlink]
    exact ih
  | case4 place name names next h target hlink =>
    rw [List.cons_append, follow, h]
    simp [hlink]
  | case5 place name names next h target hlink links ih =>
    rw [List.cons_append, follow, h]
    simp only [hlink]
    rw [← ih, List.append_assoc]

/-! ## The place of a child -/

theorem eq_of_enter {t : Tree} {place next : Place} {name : String} (hname : name ≠ "..")
    (h : t.enter place name = .ok next) : next = place ++ [name] := by
  grind [enter]

theorem exists_place?_child {t : Tree} {p : Path} {place : Place}
    (h : t.place? p.names = .ok place) (name : String) :
    ∃ links, t.place? (p.child name).names = (t.follow links place [name]).map (·.1) := by
  unfold place? at h ⊢
  cases hf : t.follow linkLimit [] p.names with
  | error stop => simp [hf, Except.map] at h
  | ok reached =>
    rcases reached with ⟨reached, links⟩
    simp only [hf, Except.map, Except.ok.injEq] at h
    exact ⟨links, by simp [Path.child, follow_append, hf, h]⟩

theorem ownPlace?_child {t : Tree} {p : Path} {place : Place} (h : t.place? p.names = .ok place)
    (name : String) : t.ownPlace? (p.child name).names =
      (t.enter place name).mapError fun obstacle => ⟨obstacle, place, [name]⟩ := by
  simp [ownPlace?, Path.child, h, bind, Except.bind]

/-- What is no link stands at the same place whether links are followed in the end or not. -/
theorem place?_child_of_ne_link {t : Tree} {p : Path} {place : Place} {name : String} {n : Node}
    (hplace : t.place? p.names = .ok place) (hname : name ≠ "..")
    (hnode : t.node? (place ++ [name]) = some n) (hlink : n.isLink = false) :
    t.place? (p.child name).names = t.ownPlace? (p.child name).names := by
  obtain ⟨links, hchild⟩ := exists_place?_child hplace name
  rw [hchild, ownPlace?_child hplace, follow]
  cases he : t.enter place name with
  | error obstacle => rfl
  | ok next =>
    obtain rfl := eq_of_enter hname he
    have htarget : t.linkTarget? (place ++ [name]) = none := by
      simp [linkTarget?, linkText?, hnode, hlink]
    simp only [htarget]
    rw [follow]
    rfl

/-! ## Room -/

def depth (t : Tree) : Nat :=
  (t.nodes.map (·.1.length)).foldr max 0

theorem length_le_depth {t : Tree} {place : Place} {n : Node} (h : (place, n) ∈ t.nodes) :
    place.length ≤ t.depth := by
  have aux : ∀ (xs : List Nat) (x : Nat), x ∈ xs → x ≤ xs.foldr max 0 := by
    intro xs
    induction xs with
    | nil => simp
    | cons y ys ih =>
      intro x hx
      rcases List.mem_cons.1 hx with rfl | hx
      · simp only [List.foldr_cons]; omega
      · have := ih x hx
        simp only [List.foldr_cons]; omega
  exact aux _ _ (List.mem_map.2 ⟨_, h, rfl⟩)

theorem length_le_depth_of_node? {t : Tree} {place : Place} {n : Node}
    (h : t.node? place = some n) : place.length ≤ t.depth := by
  unfold node? at h
  split at h
  · next hroot => simp [hroot]
  · have : (place, n) ∈ t.nodes := by
      generalize t.nodes = nodes at h
      induction nodes with
      | nil => simp at h
      | cons entry rest ih =>
        rcases entry with ⟨p, m⟩
        rw [List.lookup_cons] at h
        split at h
        · next heq => simp_all
        · exact List.mem_cons_of_mem _ (ih h)
    exact length_le_depth this

def room (t : Tree) (p : Path) : Nat :=
  match t.place? p.names with
  | .ok place => t.depth + 1 - place.length
  | .error _ => 0

theorem room_child_lt {t : Tree} {p : Path} {place : Place} {name : String} {n : Node}
    (hplace : t.place? p.names = .ok place) (hname : name ≠ "..")
    (hnode : t.node? (place ++ [name]) = some n) (hlink : n.isLink = false) :
    t.room (p.child name) < t.room p := by
  have hdepth := length_le_depth_of_node? hnode
  rw [List.length_append, List.length_singleton] at hdepth
  have hroom : t.room p = t.depth + 1 - place.length := by simp [room, hplace]
  rw [hroom, room, place?_child_of_ne_link hplace hname hnode hlink, ownPlace?_child hplace]
  cases he : t.enter place name with
  | error obstacle =>
    show 0 < t.depth + 1 - place.length
    omega
  | ok next =>
    obtain rfl := eq_of_enter hname he
    show t.depth + 1 - (place ++ [name]).length < t.depth + 1 - place.length
    rw [List.length_append, List.length_singleton]
    omega

theorem mem_namesIn_ne {t : Tree} {place : Place} {name : String} (h : name ∈ t.namesIn place) :
    name ≠ ".." := by
  unfold namesIn at h
  rw [List.mem_mergeSort, List.mem_filterMap] at h
  obtain ⟨entry, _, h⟩ := h
  split at h
  · simp [Option.filter_eq_some_iff] at h
    exact h.2
  · simp at h

theorem isDirectory_of_entry {t : Tree} {p : Path} {kind : NodeKind} {a : Attributes}
    (h : t.entry p kind = .ok (some a)) (hdir : a.isDirectory = true) :
    kind = .directory ∧ a.path = p := by
  rcases entry_eq_some_iff.mp h with ⟨-, own, -, rfl⟩ | ⟨-, file, -, -, rfl⟩
  · exact ⟨by simpa [Attributes.ofNode] using hdir, rfl⟩
  · simp [Attributes.ofNode] at hdir

theorem room_lt_of_mem_entries {t : Tree} {p q : Path} {a : Attributes}
    {sights : List (Path × Except Fault Attributes)} (h : t.entries p = .ok sights)
    (hmem : (q, .ok a) ∈ sights) (hdir : a.isDirectory = true) : t.room a.path < t.room p := by
  unfold entries list at h
  cases hl : t.locate p with
  | error fault => simp [hl, bind, Except.bind] at h
  | ok target =>
    rcases target with ⟨place, node⟩
    simp only [hl, bind, Except.bind] at h
    have hplace : t.place? p.names = .ok place := by
      unfold locate found at hl
      grind
    by_cases hd : node.isDirectory
    · cases ho : node.listObstacle with
      | some obstacle => simp [hd, ho] at h
      | none =>
        simp only [hd, ho, Bool.not_true, Bool.false_eq_true, if_false, pure, Except.pure,
          Except.ok.injEq] at h
        subst h
        obtain ⟨name, hname, hsome⟩ := List.mem_filterMap.1 hmem
        cases hn : t.node? (place ++ [name]) with
        | none => simp [hn] at hsome
        | some n =>
          simp only [hn, Option.bind_some] at hsome
          have hentry : t.entry (p.child name) n.kind = .ok (some a) := by grind
          have hkind := isDirectory_of_entry hentry hdir
          rw [hkind.2]
          refine room_child_lt hplace (mem_namesIn_ne hname) hn ?_
          simp [Node.isLink, hkind.1]
    · simp [hd] at h

end MediaIndex.Disk.Tree
