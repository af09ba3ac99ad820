import MediaIndex.Proofs.IntakeColumns
import MediaIndex.Proofs.PathText
import MediaIndex.Walk.Opening
import Mathlib.Data.List.Nodup

/-!
# Entries of a directory

The entries that a walk goes on with stand right below their directory, under names that are all
different. What a listing tells of an entry is what asking for its path tells, but for one thing: a
listing does not examine a link itself, only what it leads to.
-/

namespace MediaIndex

namespace Disk.Tree

/-- The names are ones that a directory can hold, and each place is given once. -/
structure WellFormed (t : Tree) : Prop where
  named : ∀ place ∈ t.nodes.map (·.1), ∀ name ∈ place, IsName name
  distinct : (t.nodes.map (·.1)).Nodup

variable {t : Tree}

theorem mem_namesIn {place : Place} {name : String} (h : name ∈ t.namesIn place) :
    place ++ [name] ∈ t.nodes.map (·.1) ∧ name ≠ ".." := by
  refine ⟨?_, mem_namesIn_ne h⟩
  rw [namesIn, List.mem_mergeSort, List.mem_filterMap] at h
  obtain ⟨entry, hEntry, hName⟩ := h
  split at hName
  · next hPlace =>
    obtain ⟨hLast, _⟩ := Option.filter_eq_some_iff.mp hName
    have hConcat := List.dropLast_append_getLast? name hLast
    rw [← hPlace, hConcat]
    exact List.mem_map_of_mem hEntry
  · cases hName

theorem WellFormed.isName (h : t.WellFormed) {place : Place} {name : String}
    (hName : name ∈ t.namesIn place) : IsName name :=
  h.named _ (mem_namesIn hName).1 name (by simp)

theorem WellFormed.nodup_namesIn (h : t.WellFormed) (place : Place) :
    (t.namesIn place).Nodup := by
  have hNames : (t.nodes.filterMap fun entry =>
      if entry.1.dropLast = place then entry.1.getLast?.filter (· ≠ "..") else none) =
        (t.nodes.map (·.1)).filterMap fun other =>
          if other.dropLast = place then other.getLast?.filter (· ≠ "..") else none := by
    rw [List.filterMap_map]
    rfl
  rw [namesIn, hNames, (List.mergeSort_perm _ _).nodup_iff]
  apply h.distinct.filterMap
  intro other more name hOther hMore
  simp only [Option.mem_def] at hOther hMore
  split at hOther
  · next hPlace =>
    split at hMore
    · next hPlace' =>
      have hLast := List.dropLast_append_getLast? name (Option.filter_eq_some_iff.mp hOther).1
      have hLast' := List.dropLast_append_getLast? name (Option.filter_eq_some_iff.mp hMore).1
      rw [← hLast, ← hLast', hPlace, hPlace']
    · cases hMore
  · cases hOther

/-! ## What a listing tells of an entry -/

theorem entry_path {p : Path} {kind : NodeKind} {a : Attributes}
    (h : t.entry p kind = .ok (some a)) : a.path = p := by
  rcases entry_eq_some_iff.mp h with ⟨-, own, -, rfl⟩ | ⟨-, file, -, -, rfl⟩ <;> rfl

theorem attributes_path {p : Path} {a : Attributes} (h : t.attributes p = .ok a) : a.path = p := by
  simp only [attributes, bind, Except.bind, pure, Except.pure] at h
  split at h
  · cases h
  · split at h
    · split at h
      · cases h
      · split at h
        · split at h
          · cases h
          · cases h
            rfl
        · cases h
          rfl
    · cases h
      rfl

theorem attributes_of_ne_link {p : Path} {target : Place × Node} (h : t.statOwn p = .ok target)
    (hLink : target.2.isLink = false) :
    t.attributes p = .ok (.ofNode p target.2 target.2.isDirectory) := by
  simp [attributes, h, hLink, bind, Except.bind, pure, Except.pure]

theorem attributes_of_link {p : Path} {target file : Place × Node} (h : t.statOwn p = .ok target)
    (hLink : target.2.isLink = true) (hFile : t.isFile? p = .ok true)
    (hStat : t.stat p = .ok file) :
    t.attributes p = .ok (.ofNode p file.2 false) := by
  simp [attributes, h, hLink, hFile, hStat, bind, Except.bind, pure, Except.pure]

theorem locateOwn_child {p : Path} {place : Place} (hPlace : t.place? p.names = .ok place)
    {name : String} (hUp : name ≠ "..") {target : Place × Node}
    (h : t.locateOwn (p.child name) = .ok target) :
    target.1 = place ++ [name] ∧ t.node? (place ++ [name]) = some target.2 := by
  rw [locateOwn, ownPlace?_child hPlace] at h
  cases hEnter : t.enter place name with
  | error obstacle =>
    rw [hEnter] at h
    cases h
  | ok next =>
    obtain rfl := eq_of_enter hUp hEnter
    rw [hEnter] at h
    replace h : t.found (p.child name).text (.ok (place ++ [name])) = .ok target := h
    simp only [found] at h
    split at h
    · next node hNode =>
      cases h
      exact ⟨rfl, hNode⟩
    · cases h

theorem node_of_statOwn_child {p : Path} {place : Place} (hPlace : t.place? p.names = .ok place)
    {name : String} (hUp : name ≠ "..") {n : Node} (hNode : t.node? (place ++ [name]) = some n)
    {target : Place × Node} (hOwn : t.statOwn (p.child name) = .ok target) : target.2 = n := by
  obtain ⟨located, hLocated, hReadable⟩ := bind_eq_ok_iff.mp hOwn
  have hFound := (locateOwn_child hPlace hUp hLocated).2
  rw [hNode, Option.some.injEq] at hFound
  unfold readable at hReadable
  split at hReadable
  · cases hReadable
  · rw [← Except.ok.inj hReadable, hFound]

/-- What is no link is found the same whether links are followed in the end or not. -/
theorem stat_child_of_ne_link {p : Path} {place : Place} (hPlace : t.place? p.names = .ok place)
    {name : String} (hUp : name ≠ "..") {n : Node} (hNode : t.node? (place ++ [name]) = some n)
    (hLink : n.isLink = false) : t.stat (p.child name) = t.statOwn (p.child name) := by
  rw [stat, statOwn, locate, locateOwn, place?_child_of_ne_link hPlace hUp hNode hLink]

theorem isDirectory_of_isFile {n : Node} (h : n.isFile = true) : n.isDirectory = false := by
  have hKind : n.kind = .file := by simpa [Node.isFile] using h
  rw [Node.isDirectory, hKind]
  rfl

theorem stat_of_entry {p : Path} {place : Place} (hPlace : t.place? p.names = .ok place)
    {name : String} (hUp : name ≠ "..") {n : Node} (hNode : t.node? (place ++ [name]) = some n)
    {a : Attributes} (h : t.entry (p.child name) n.kind = .ok (some a)) :
    ∃ target, t.stat (p.child name) = .ok target ∧
      a = .ofNode (p.child name) target.2 target.2.isDirectory := by
  rcases entry_eq_some_iff.mp h with ⟨hKind, own, hOwn, rfl⟩ | ⟨-, file, hStat, hFile, rfl⟩
  · have hLink : n.isLink = false := by
      rcases hKind with hKind | hKind <;> simp [Node.isLink, hKind]
    refine ⟨own, ?_, ?_⟩
    · rw [stat_child_of_ne_link hPlace hUp hNode hLink, hOwn]
    · rw [node_of_statOwn_child hPlace hUp hNode hOwn, Node.isDirectory]
  · refine ⟨file, hStat, ?_⟩
    rw [isDirectory_of_isFile hFile]

/-- A listing and a question for the path agree on every entry that can be examined itself. -/
theorem attributes_of_entry {p : Path} {place : Place} (hPlace : t.place? p.names = .ok place)
    {name : String} (hUp : name ≠ "..") {n : Node} (hNode : t.node? (place ++ [name]) = some n)
    {a : Attributes} (h : t.entry (p.child name) n.kind = .ok (some a)) {target : Place × Node}
    (hOwn : t.statOwn (p.child name) = .ok target) :
    t.attributes (p.child name) = .ok a := by
  have hSame := node_of_statOwn_child hPlace hUp hNode hOwn
  rcases entry_eq_some_iff.mp h with ⟨hKind, own, hEntry, rfl⟩ | ⟨hKind, file, hStat, hFile, rfl⟩
  · obtain rfl : own = target := Except.ok.inj (hEntry.symm.trans hOwn)
    have hLink : own.2.isLink = false := by
      rcases hKind with hKind | hKind <;> simp [hSame, Node.isLink, hKind]
    rw [attributes_of_ne_link hOwn hLink, hSame, Node.isDirectory]
  · exact attributes_of_link hOwn (by simp [hSame, Node.isLink, hKind])
      (holds_eq_true_iff.mpr ⟨file, hStat, hFile⟩) hStat

end Disk.Tree

namespace Walk

open Disk

/-- The attributes of what stands under a name in a directory, if the walk goes on with it. -/
def childAt (t : Tree) (p : Path) (place : Place) (name : String) : Option Attributes :=
  (t.node? (place ++ [name])).bind fun n => match t.entry (p.child name) n.kind with
    | .ok found => found
    | .error _ => none

variable {t : Tree}

theorem childAt_path {p : Path} {place : Place} {name : String} {c : Attributes}
    (h : childAt t p place name = some c) : c.path = p.child name := by
  obtain ⟨n, -, hEntry⟩ := Option.bind_eq_some_iff.mp h
  split at hEntry
  · next found hFound => exact Tree.entry_path (hEntry ▸ hFound)
  · cases hEntry

theorem children_of_list {p : Path} {place : Place} {names : List String}
    (h : t.list p = .ok (place, names)) : children t p = names.filterMap (childAt t p place) := by
  rw [children, Tree.entries, h]
  simp only [bind, Except.bind, pure, Except.pure]
  rw [List.filterMap_filterMap]
  refine congrArg (List.filterMap · _) (funext fun name => ?_)
  unfold childAt
  cases t.node? (place ++ [name]) with
  | none => rfl
  | some n =>
    simp only [Option.bind_some]
    cases t.entry (p.child name) n.kind with
    | error fault => rfl
    | ok found => cases found <;> rfl

theorem place?_of_list {p : Path} {place : Place} {names : List String}
    (h : t.list p = .ok (place, names)) :
    t.place? p.names = .ok place ∧ names = t.namesIn place := by
  obtain ⟨⟨place', node⟩, hLocate, hRest⟩ := bind_eq_ok_iff.mp h
  have hNames : (place, names) = (place', t.namesIn place') := by
    simp only at hRest
    split at hRest
    · cases hRest
    · split at hRest
      · cases hRest
      · exact (Except.ok.inj hRest).symm
  obtain ⟨rfl, rfl⟩ := Prod.mk.inj hNames
  refine ⟨?_, rfl⟩
  unfold Tree.locate Tree.found at hLocate
  split at hLocate
  · cases hLocate
  · next found hFound =>
    split at hLocate
    · rw [hFound, ← (Prod.mk.inj (Except.ok.inj hLocate)).1]
    · cases hLocate

theorem children_eq (t : Tree) (p : Path) : children t p = [] ∨
    ∃ place, t.place? p.names = .ok place ∧
      children t p = (t.namesIn place).filterMap (childAt t p place) := by
  cases hList : t.list p with
  | error fault =>
    left
    rw [children, Tree.entries, hList]
    rfl
  | ok listed =>
    obtain ⟨place, names⟩ := listed
    obtain ⟨hPlace, rfl⟩ := place?_of_list hList
    exact .inr ⟨place, hPlace, children_of_list hList⟩

theorem exists_name_of_mem_children {p : Path} {c : Attributes} (h : c ∈ children t p) :
    ∃ place name, t.place? p.names = .ok place ∧ name ∈ t.namesIn place ∧
      childAt t p place name = some c := by
  rcases children_eq t p with hNone | ⟨place, hPlace, hEq⟩
  · rw [hNone] at h
    cases h
  · rw [hEq] at h
    obtain ⟨name, hName, hChild⟩ := List.mem_filterMap.mp h
    exact ⟨place, name, hPlace, hName, hChild⟩

theorem exists_entry_of_mem_children {p : Path} {c : Attributes} (h : c ∈ children t p) :
    ∃ place name n, t.place? p.names = .ok place ∧ name ≠ ".." ∧
      t.node? (place ++ [name]) = some n ∧ t.entry (p.child name) n.kind = .ok (some c) ∧
      c.path = p.child name := by
  obtain ⟨place, name, hPlace, hName, hChild⟩ := exists_name_of_mem_children h
  obtain ⟨n, hNode, hEntry⟩ := Option.bind_eq_some_iff.mp hChild
  split at hEntry
  · next found hFound =>
    exact ⟨place, name, n, hPlace, Tree.mem_namesIn_ne hName, hNode, hEntry ▸ hFound,
      childAt_path hChild⟩
  · cases hEntry

theorem attributes_of_mem_children {p : Path} {c : Attributes} (h : c ∈ children t p)
    {target : Place × Node} (hOwn : t.statOwn c.path = .ok target) :
    t.attributes c.path = .ok c := by
  obtain ⟨place, name, n, hPlace, hUp, hNode, hEntry, hPath⟩ := exists_entry_of_mem_children h
  rw [hPath] at hOwn ⊢
  exact Tree.attributes_of_entry hPlace hUp hNode hEntry hOwn

/-- An entry has the attributes of what its path leads to, links followed. -/
theorem ofNode_of_mem_children {p : Path} {c : Attributes} (h : c ∈ children t p) :
    ∃ target, t.stat c.path = .ok target ∧ c = .ofNode c.path target.2 target.2.isDirectory := by
  obtain ⟨place, name, n, hPlace, hUp, hNode, hEntry, hPath⟩ := exists_entry_of_mem_children h
  rw [hPath]
  exact Tree.stat_of_entry hPlace hUp hNode hEntry

theorem stat_of_mem_children {p : Path} {c : Attributes} (h : c ∈ children t p) :
    ∃ target, t.stat c.path = .ok target ∧ target.2.isDirectory = c.isDirectory := by
  obtain ⟨target, hStat, hSame⟩ := ofNode_of_mem_children h
  exact ⟨target, hStat, (congrArg (·.isDirectory) hSame).symm⟩

theorem nodup_children_paths (h : t.WellFormed) (p : Path) :
    ((children t p).map (·.path)).Nodup := by
  rcases children_eq t p with hNone | ⟨place, -, hEq⟩
  · rw [hNone]
    exact .nil
  · rw [hEq, List.map_filterMap]
    apply (h.nodup_namesIn place).filterMap
    intro name other path hName hOther
    obtain ⟨c, hChild, rfl⟩ := Option.map_eq_some_iff.mp hName
    obtain ⟨d, hOtherChild, hPath⟩ := Option.map_eq_some_iff.mp hOther
    rw [childAt_path hChild, childAt_path hOtherChild] at hPath
    rw [← Path.name_child p name, ← hPath, Path.name_child]

end Walk

end MediaIndex
