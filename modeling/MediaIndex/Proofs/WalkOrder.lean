import MediaIndex.Proofs.WalkVisits

/-!
# The order of a walk

A walk is a loop over an agenda. Each turn takes the first task off, so after some number of turns
nothing is left, and what was reported by then is what the recursion reports. What is reported of a
directory that is entered lies between its visit and its leave, and nothing else does. The entries
of a directory come in increasing order of their names.
-/

namespace MediaIndex.Walk

open Disk

/-! ## Turns of the loop -/

/-- One turn of the loop: what it reports and what is then still to do. -/
def turn (t : Tree) : List Task → List Event × List Task
  | [] => ([], [])
  | .leave p :: rest => ([.leave p], rest)
  | .enter a :: rest =>
    match opening t a with
    | .closed events => (events, rest)
    | .opened events next => (events, next.map .enter ++ .leave a.path :: rest)

def turns (t : Tree) : Nat → List Task → List Event × List Task
  | 0, agenda => ([], agenda)
  | n + 1, agenda =>
    let first := turn t agenda
    let others := turns t n first.2
    (first.1 ++ others.1, others.2)

variable {t : Tree}

theorem exists_turns (agenda : List Task) : ∃ n, turns t n agenda = (workOff t agenda, []) := by
  fun_induction workOff t agenda with
  | case1 => exact ⟨0, rfl⟩
  | case2 p rest ih =>
    obtain ⟨n, hn⟩ := ih
    refine ⟨n + 1, ?_⟩
    simp only [turns, turn, hn]
    rfl
  | case3 a rest events h ih =>
    obtain ⟨n, hn⟩ := ih
    refine ⟨n + 1, ?_⟩
    simp only [turns, turn, h, hn]
  | case4 a rest events next h ih =>
    obtain ⟨n, hn⟩ := ih
    refine ⟨n + 1, ?_⟩
    simp only [turns, turn, h, hn]

/-! ## Entries by name -/

theorem namesIn_increasing (hTree : t.WellFormed) (place : Place) :
    (t.namesIn place).Pairwise (· < ·) := by
  have hSorted : (t.namesIn place).Pairwise fun a b => decide (a ≤ b) = true := by
    refine List.pairwise_mergeSort (fun a b c hab hbc => ?_) (fun a b => ?_) _
    · rw [decide_eq_true_eq] at *
      exact String.le_trans hab hbc
    · rw [Bool.or_eq_true, decide_eq_true_eq, decide_eq_true_eq]
      exact String.le_total a b
  refine (hSorted.and (hTree.nodup_namesIn place)).imp fun {a b} h => ?_
  exact Std.lt_of_le_of_ne (of_decide_eq_true h.1) h.2

theorem children_increasing (hTree : t.WellFormed) (p : Path) :
    ((children t p).map (·.path.name)).Pairwise (· < ·) := by
  rcases children_eq t p with hNone | ⟨place, -, hEq⟩
  · rw [hNone]
    exact .nil
  · rw [hEq, List.pairwise_map, List.pairwise_filterMap]
    refine (namesIn_increasing hTree place).imp fun {name other} hLt c hc d hd => ?_
    rw [childAt_path hc, childAt_path hd, Path.name_child, Path.name_child]
    exact hLt

/-- What a listing tells of an entry stands under its own path, with attributes of that path. -/
theorem sights_of_entries {p : Path} {sights : List (Path × Except Fault Attributes)}
    (h : t.entries p = .ok sights) : ∃ place, ∃ sightOf : String → Option (Path × Except Fault Attributes),
      sights = (t.namesIn place).filterMap sightOf ∧ ∀ name sight, sightOf name = some sight →
        sight.1 = p.child name ∧ ∀ a, sight.2 = .ok a → a.path = sight.1 := by
  obtain ⟨⟨place, names⟩, hList, hSights⟩ := bind_eq_ok_iff.mp h
  obtain ⟨-, rfl⟩ := place?_of_list hList
  refine ⟨place, _, (Except.ok.inj hSights).symm, fun name sight hSight => ?_⟩
  obtain ⟨n, -, hEntry⟩ := Option.bind_eq_some_iff.mp hSight
  split at hEntry
  · cases hEntry
  · next a hFound =>
    cases hEntry
    refine ⟨rfl, fun a' ha' => ?_⟩
    cases ha'
    exact Tree.entry_path hFound
  · next fault hFault =>
    cases hEntry
    exact ⟨rfl, fun a' ha' => by cases ha'⟩

theorem exists_name_of_mem_listingFaults {p : Path} {sight : Path × Fault}
    (h : sight ∈ listingFaults t p) : sight.1 = p ∨ ∃ name, sight.1 = p.child name := by
  unfold listingFaults at h
  cases hEntries : t.entries p with
  | error other =>
    rw [hEntries, List.mem_singleton] at h
    exact .inl (congrArg Prod.fst h)
  | ok sights =>
    rw [hEntries] at h
    obtain ⟨place, sightOf, rfl, hSightOf⟩ := sights_of_entries hEntries
    obtain ⟨other, hOther, hError⟩ := List.mem_filterMap.mp h
    obtain ⟨name, -, hName⟩ := List.mem_filterMap.mp hOther
    split at hError
    · cases hError
    · cases hError
      exact .inr ⟨name, (hSightOf name other hName).1⟩

/-- A listing says of a path that it failed or what stands there, not both. -/
theorem ne_of_mem_listingFaults {p : Path} {c : Attributes} (hc : c ∈ children t p)
    {sight : Path × Fault} (hSight : sight ∈ listingFaults t p) : sight.1 ≠ c.path := by
  unfold listingFaults at hSight
  unfold children at hc
  cases hEntries : t.entries p with
  | error fault =>
    rw [hEntries] at hc
    cases hc
  | ok sights =>
    rw [hEntries] at hSight hc
    obtain ⟨place, sightOf, rfl, hSightOf⟩ := sights_of_entries hEntries
    obtain ⟨found, hFound, hOk⟩ := List.mem_filterMap.mp hc
    obtain ⟨failed, hFailed, hError⟩ := List.mem_filterMap.mp hSight
    obtain ⟨name, -, hName⟩ := List.mem_filterMap.mp hFound
    obtain ⟨other, -, hOther⟩ := List.mem_filterMap.mp hFailed
    obtain ⟨hPath, hSame⟩ := hSightOf name found hName
    obtain ⟨hPath', -⟩ := hSightOf other failed hOther
    obtain ⟨path, _ | a⟩ := found
    · cases hOk
    obtain rfl : a = c := Option.some.inj hOk
    obtain ⟨path', fault | a'⟩ := failed
    · cases hError
      rintro rfl
      simp only at hPath hPath' hSame
      have hNames : name = other := by
        rw [← Path.name_child p name, ← hPath, ← hSame a rfl, hPath', Path.name_child]
      rw [hNames, hOther] at hName
      cases hName
    · cases hError

/-! ## What lies between the visit and the leave of a directory -/

def Event.path : Event → Path
  | visit a => a.path
  | hidden p | failed p _ | leave p => p

/-- The event is the visit or the leave of a path. -/
def Event.Bounds (e : Event) (p : Path) : Prop :=
  e = .leave p ∨ ∃ a : Attributes, e = .visit a ∧ a.path = p

/-- The directory is entered once and left once; in between stands all that is reported at or below
it, and nothing else. -/
def Encloses (events : List Event) (b : Attributes) : Prop :=
  ∃ before inside after, events = before ++ .visit b :: inside ++ .leave b.path :: after ∧
    (∀ e ∈ inside, e.path.isUnder b.path = true ∧ ¬ e.Bounds b.path) ∧
    ∀ e ∈ before ++ after, e.path.isUnder b.path ≠ true

theorem preorder_of_entered {a : Attributes} (hDirectory : a.isDirectory = true) (hOpen : IsOpen t a) :
    preorder t a = .visit a :: (listingFaults t a.path).map (fun sight => .failed sight.1 sight.2) ++
      (children t a.path).flatMap (preorder t) ++ [.leave a.path] := by
  rw [preorder_eq, if_pos hDirectory, hOpen hDirectory]

theorem isUnder_of_mem_listingFaults {p : Path} {sight : Path × Fault}
    (h : sight ∈ listingFaults t p) : sight.1.isUnder p = true := by
  rcases exists_name_of_mem_listingFaults h with hSame | ⟨name, hChild⟩
  · rw [hSame]
    exact Path.isUnder_refl p
  · rw [hChild]
    exact Path.isUnder_iff.mpr ⟨rfl, List.prefix_append p.names [name]⟩

theorem isUnder_of_mem_preorder {a : Attributes} {e : Event} (h : e ∈ preorder t a) :
    e.path.isUnder a.path = true := by
  induction a using entry_induction (t := t) with
  | step a ih =>
    rw [preorder_eq] at h
    split at h
    · next hDirectory =>
      split at h
      · exact List.mem_singleton.mp h ▸ Path.isUnder_refl _
      · exact List.mem_singleton.mp h ▸ Path.isUnder_refl _
      · rw [List.mem_append, List.mem_append, List.mem_cons, List.mem_map, List.mem_flatMap,
          List.mem_singleton] at h
        rcases h with ((rfl | ⟨sight, hSight, rfl⟩) | ⟨c, hc, hEvent⟩) | rfl
        · exact Path.isUnder_refl _
        · exact isUnder_of_mem_listingFaults hSight
        · exact Path.isUnder_trans (ih hDirectory c hc hEvent) (isUnder_of_mem_children hc)
        · exact Path.isUnder_refl _
    · exact List.mem_singleton.mp h ▸ Path.isUnder_refl _

/-- What one entry of a directory reports does not lie at or below another entry. -/
theorem not_isUnder_of_mem_sibling (hTree : t.WellFormed) {p q : Path} {c d : Attributes}
    (hc : c ∈ children t p) (hd : d ∈ children t p) (hNe : d ≠ c) (hq : q.isUnder c.path = true)
    {e : Event} (he : e ∈ preorder t d) : e.path.isUnder q ≠ true := by
  intro hUnder
  exact hNe (eq_of_isUnder_children hTree hd hc (isUnder_of_mem_preorder he)
    (Path.isUnder_trans hUnder hq))

theorem not_isUnder_of_mem_listingFaults {p q : Path} {c : Attributes} (hc : c ∈ children t p)
    (hq : q.isUnder c.path = true) {sight : Path × Fault} (hSight : sight ∈ listingFaults t p) :
    sight.1.isUnder q ≠ true := by
  intro hUnder
  have hUnderChild := Path.isUnder_trans hUnder hq
  rcases exists_name_of_mem_listingFaults hSight with hSame | ⟨name, hName⟩
  · exact isUnder_child_ne hc (hSame ▸ hUnderChild)
  · obtain ⟨other, hOther⟩ := exists_child_of_mem_children hc
    apply ne_of_mem_listingFaults hc hSight
    obtain ⟨hAnchor, hNames⟩ := Path.isUnder_iff.mp hUnderChild
    rw [hName, hOther] at hAnchor hNames ⊢
    have hLast : (p.child other).names = (p.child name).names :=
      hNames.eq_of_length (by simp [Path.child])
    exact congrArg (Path.mk p.anchor) hLast.symm

theorem encloses_of_entered {b : Attributes} (hDirectory : b.isDirectory = true)
    (hOpen : IsOpen t b) : Encloses (preorder t b) b := by
  refine ⟨[], (listingFaults t b.path).map (fun sight => .failed sight.1 sight.2) ++
    (children t b.path).flatMap (preorder t), [], ?_, ?_, nofun⟩
  · rw [preorder_of_entered hDirectory hOpen]
    simp
  · intro e he
    rw [List.mem_append, List.mem_map, List.mem_flatMap] at he
    rcases he with ⟨sight, hSight, rfl⟩ | ⟨c, hc, hEvent⟩
    · exact ⟨isUnder_of_mem_listingFaults hSight, by simp [Event.Bounds]⟩
    · have hUnder := isUnder_of_mem_preorder hEvent
      refine ⟨Path.isUnder_trans hUnder (isUnder_of_mem_children hc), ?_⟩
      rintro (rfl | ⟨a, rfl, hPath⟩)
      · exact isUnder_child_ne hc hUnder
      · exact isUnder_child_ne hc (hPath ▸ hUnder)

theorem Encloses.inside (hTree : t.WellFormed) {a b c : Attributes} (hDirectory : a.isDirectory = true)
    (hOpen : IsOpen t a) (hc : c ∈ children t a.path) (hUnder : b.path.isUnder c.path = true)
    (h : Encloses (preorder t c) b) : Encloses (preorder t a) b := by
  obtain ⟨before, inside, after, hEvents, hInside, hOutside⟩ := h
  obtain ⟨front, back, hChildren⟩ := List.append_of_mem hc
  have hOthers : ∀ d ∈ front ++ back, d ∈ children t a.path ∧ d ≠ c := by
    have hOnce := (nodup_children_paths hTree a.path).of_map
    rw [hChildren, List.nodup_middle, List.nodup_cons] at hOnce
    intro d hd
    rw [hChildren]
    refine ⟨?_, fun hSame => hOnce.1 (hSame ▸ hd)⟩
    rcases List.mem_append.mp hd with hFront | hBack
    · exact List.mem_append_left _ hFront
    · exact List.mem_append_right _ (List.mem_cons_of_mem _ hBack)
  have hSibling : ∀ d ∈ front ++ back, ∀ e ∈ preorder t d, e.path.isUnder b.path ≠ true :=
    fun d hd _ he => not_isUnder_of_mem_sibling hTree hc (hOthers d hd).1 (hOthers d hd).2 hUnder he
  have hAbove : a.path.isUnder b.path ≠ true := fun hBelow =>
    isUnder_child_ne hc (Path.isUnder_trans hBelow hUnder)
  refine ⟨.visit a :: (listingFaults t a.path).map (fun sight => .failed sight.1 sight.2) ++
    front.flatMap (preorder t) ++ before, inside, after ++ back.flatMap (preorder t) ++ [.leave a.path],
    ?_, hInside, ?_⟩
  · rw [preorder_of_entered hDirectory hOpen, hChildren, List.flatMap_append, List.flatMap_cons, hEvents]
    simp
  · intro e he
    rw [List.forall_mem_append] at hOutside
    simp only [List.mem_append, List.mem_cons, List.mem_map, List.mem_flatMap,
      List.not_mem_nil, or_false] at he
    rcases he with (((rfl | ⟨sight, hSight, rfl⟩) | ⟨d, hd, he⟩) | he) | (he | ⟨d, hd, he⟩) | rfl
    · exact hAbove
    · exact not_isUnder_of_mem_listingFaults hc hUnder hSight
    · exact hSibling d (List.mem_append_left _ hd) e he
    · exact hOutside.1 e he
    · exact hOutside.2 e he
    · exact hSibling d (List.mem_append_right _ hd) e he
    · exact hAbove

theorem Reaches.encloses (hTree : t.WellFormed) {a b : Attributes} (h : Reaches t a b)
    (hDirectory : b.isDirectory = true) : Encloses (preorder t a) b := by
  induction h with
  | here hOpen => exact encloses_of_entered hDirectory hOpen
  | inside hEntered hOpen hc hRest ih => exact (ih hDirectory).inside hTree hEntered hOpen hc hRest.isUnder

/-- Nothing is left but the directories that were entered. -/
theorem exists_reaches_of_leave {a : Attributes} {p : Path} (h : Event.leave p ∈ preorder t a) :
    ∃ b, Reaches t a b ∧ b.isDirectory = true ∧ b.path = p := by
  induction a using entry_induction (t := t) with
  | step a ih =>
    rw [preorder_eq] at h
    split at h
    · next hDirectory =>
      split at h
      · cases List.mem_singleton.mp h
      · cases List.mem_singleton.mp h
      · next hVisible =>
        have hOpen : IsOpen t a := fun _ => hVisible
        simp only [List.mem_append, List.mem_cons, List.mem_map, List.mem_flatMap, reduceCtorEq,
          and_false, exists_false, false_or, Event.leave.injEq, List.not_mem_nil, or_false] at h
        rcases h with ⟨c, hc, hLeave⟩ | rfl
        · obtain ⟨b, hb, hRest⟩ := ih hDirectory c hc hLeave
          exact ⟨b, .inside hDirectory hOpen hc hb, hRest⟩
        · exact ⟨a, .here hOpen, hDirectory, rfl⟩
    · cases List.mem_singleton.mp h

end MediaIndex.Walk
