import MediaIndex.Walk.Depth
import MediaIndex.Walk.Visibility

/-!
# Opening an entry

What a walk does at one entry. A file is visited. A directory is refused if it is hidden or if that
cannot be told; else it is visited, its listing is read, and its entries are next. An entry or a
listing that fails is reported and costs nothing else.
-/

namespace MediaIndex.Walk

open Disk

inductive Event where
  | visit (a : Attributes)
  | hidden (p : Path)
  | failed (p : Path) (fault : Fault)
  | leave (p : Path)
  deriving DecidableEq

/-- What a walk finds at one entry: what it reports at once, and for a directory that is entered
also the entries to go on with. -/
inductive Opening where
  | closed (events : List Event)
  | opened (events : List Event) (children : List Attributes)

def children (t : Tree) (p : Path) : List Attributes :=
  match t.entries p with
  | .ok sights => sights.filterMap fun sight => sight.2.toOption
  | .error _ => []

def listingFaults (t : Tree) (p : Path) : List (Path × Fault) :=
  match t.entries p with
  | .ok sights => sights.filterMap fun sight => match sight.2 with
    | .ok _ => none
    | .error fault => some (sight.1, fault)
  | .error fault => [(p, fault)]

def opening (t : Tree) (a : Attributes) : Opening :=
  if a.isDirectory then
    match isHidden t a.path with
    | .error fault => .closed [.failed a.path fault]
    | .ok true => .closed [.hidden a.path]
    | .ok false =>
      .opened (.visit a :: (listingFaults t a.path).map fun sight => .failed sight.1 sight.2)
        (children t a.path)
  else .closed [.visit a]

/-- How far a walk may go on below an entry. -/
def reach (t : Tree) (a : Attributes) : Nat :=
  if a.isDirectory then t.room a.path + 1 else 0

theorem eq_children_of_opened {t : Tree} {a : Attributes} {events : List Event}
    {next : List Attributes} (h : opening t a = .opened events next) :
    a.isDirectory = true ∧ next = children t a.path := by
  unfold opening at h
  grind

theorem reach_lt_of_mem_children {t : Tree} {a c : Attributes} (ha : a.isDirectory = true)
    (hc : c ∈ children t a.path) : reach t c < reach t a := by
  unfold reach
  rw [if_pos ha]
  split
  · next hdir =>
    unfold children at hc
    split at hc
    · next sights hs =>
      obtain ⟨sight, hmem, hsome⟩ := List.mem_filterMap.1 hc
      rcases sight with ⟨q, _ | b⟩
      · simp [Except.toOption] at hsome
      · simp only [Except.toOption, Option.some.injEq] at hsome
        subst hsome
        have := Tree.room_lt_of_mem_entries hs hmem hdir
        omega
    · simp at hc
  · omega

theorem reach_lt_of_opened {t : Tree} {a c : Attributes} {events : List Event}
    {next : List Attributes} (h : opening t a = .opened events next) (hc : c ∈ next) :
    reach t c < reach t a := by
  obtain ⟨ha, rfl⟩ := eq_children_of_opened h
  exact reach_lt_of_mem_children ha hc

theorem length_children_le (t : Tree) (p : Path) : (children t p).length ≤ t.nodes.length := by
  unfold children
  split
  · next sights hs =>
    refine Nat.le_trans (List.length_filterMap_le _ _) ?_
    unfold Tree.entries Tree.list at hs
    cases hl : t.locate p with
    | error fault => simp [hl, bind, Except.bind] at hs
    | ok target =>
      rcases target with ⟨place, node⟩
      simp only [hl, bind, Except.bind] at hs
      have hnames : (t.namesIn place).length ≤ t.nodes.length := by
        unfold Tree.namesIn
        rw [List.length_mergeSort]
        exact List.length_filterMap_le _ _
      split at hs
      · simp at hs
      · next listed hok =>
        have hlisted : listed = (place, t.namesIn place) := by
          split at hok
          · simp at hok
          · split at hok <;> simp_all [pure, Except.pure]
        subst hlisted
        simp only [pure, Except.pure, Except.ok.injEq] at hs
        subst hs
        exact Nat.le_trans (List.length_filterMap_le _ _) hnames
  · simp

theorem length_le_of_opened {t : Tree} {a : Attributes} {events : List Event}
    {next : List Attributes} (h : opening t a = .opened events next) :
    next.length ≤ t.nodes.length := by
  obtain ⟨_, rfl⟩ := eq_children_of_opened h
  exact length_children_le t a.path

end MediaIndex.Walk
