import MediaIndex.Proofs.Entries
import MediaIndex.Walk.Preorder

/-!
# What a walk visits

A walk reaches an entry through directories that are all visible. Every entry it visits lies at or
below its root, and it visits none twice. From an entry that it visits a walk goes on as if it had
started there.
-/

namespace MediaIndex.Walk

open Disk

def Event.visited? : Event → Option Attributes
  | visit a => some a
  | _ => none

/-- What a walk visits of an entry and all below it. -/
def below (t : Tree) (a : Attributes) : List Attributes :=
  (preorder t a).filterMap Event.visited?

def visits (t : Tree) (root : Path) : List Attributes :=
  (walk t root).filterMap Event.visited?

variable {t : Tree}

theorem walk_of_attributes {root : Path} {a : Attributes} (h : t.attributes root = .ok a) :
    walk t root = preorder t a := by
  rw [walk, h]
  simp [workOff_enter_cons, workOff]

theorem walk_of_closed {root : Path} {a : Attributes} (h : t.attributes root = .ok a)
    (hFile : opening t a = .closed [.visit a]) : walk t root = [.visit a] := by
  rw [walk_of_attributes h, preorder_of_closed hFile]

theorem walk_of_single {root : Path} {a b : Attributes} (h : t.attributes root = .ok a)
    (hDirectory : opening t a = .opened [.visit a] [b])
    (hFile : opening t b = .closed [.visit b]) :
    walk t root = [.visit a, .visit b, .leave a.path] := by
  rw [walk_of_attributes h, preorder_of_opened hDirectory, List.flatMap_singleton,
    preorder_of_closed hFile]
  rfl

theorem walk_of_nested {root : Path} {a b : Attributes} (h : t.attributes root = .ok a)
    (hOuter : opening t a = .opened [.visit a] [b]) (hInner : opening t b = .opened [.visit b] []) :
    walk t root = [.visit a, .visit b, .leave b.path, .leave a.path] := by
  rw [walk_of_attributes h, preorder_of_opened hOuter, List.flatMap_singleton,
    preorder_of_opened hInner]
  rfl

theorem visits_of_attributes {root : Path} {a : Attributes} (h : t.attributes root = .ok a) :
    visits t root = below t a := by
  rw [visits, walk_of_attributes h, below]

theorem visits_of_fault {root : Path} {fault : Fault} (h : t.attributes root = .error fault) :
    visits t root = [] := by
  rw [visits, walk, h]
  rfl

theorem attributes_of_mem_visits {root : Path} {b : Attributes} (h : b ∈ visits t root) :
    ∃ a, t.attributes root = .ok a ∧ b ∈ below t a := by
  cases hRoot : t.attributes root with
  | error fault =>
    rw [visits_of_fault hRoot] at h
    cases h
  | ok a => exact ⟨a, rfl, visits_of_attributes hRoot ▸ h⟩

/-- A walk goes into an entry: it is no directory, or it is one that is visible. -/
def IsOpen (t : Tree) (a : Attributes) : Prop :=
  a.isDirectory = true → isHidden t a.path = .ok false

theorem below_of_not_open {a : Attributes} (h : ¬ IsOpen t a) : below t a = [] := by
  obtain ⟨hDirectory, hClosed⟩ := Classical.not_imp.mp h
  rw [below, preorder_eq, if_pos hDirectory]
  cases hHidden : isHidden t a.path with
  | error fault => rfl
  | ok hidden =>
    cases hidden with
    | true => rfl
    | false => exact absurd hHidden hClosed

theorem below_of_file {a : Attributes} (h : a.isDirectory = false) : below t a = [a] := by
  rw [below, preorder_eq, h]
  rfl

theorem below_of_directory {a : Attributes} (h : a.isDirectory = true)
    (hVisible : isHidden t a.path = .ok false) :
    below t a = a :: (children t a.path).flatMap (below t) := by
  rw [below, preorder_eq, if_pos h, hVisible]
  simp [Event.visited?, List.filterMap_flatMap, List.filterMap_map, Function.comp_def]
  exact List.append_nil _

/-- Whatever holds of an entry as soon as it holds of all entries right below it holds of all
entries. -/
theorem entry_induction {motive : Attributes → Prop}
    (step : ∀ a, (a.isDirectory = true → ∀ c ∈ children t a.path, motive c) → motive a)
    (a : Attributes) : motive a := by
  generalize hReach : reach t a = bound
  induction bound using Nat.strongRecOn generalizing a with
  | ind bound ih =>
    refine step a fun hDirectory c hc => ?_
    exact ih (reach t c) (hReach ▸ reach_lt_of_mem_children hDirectory hc) c rfl

/-- A walk that goes into the first entry visits the second one. -/
inductive Reaches (t : Tree) : Attributes → Attributes → Prop
  | here {a : Attributes} (h : IsOpen t a) : Reaches t a a
  | inside {a b c : Attributes} (hDirectory : a.isDirectory = true) (h : IsOpen t a)
      (hc : c ∈ children t a.path) (hRest : Reaches t c b) : Reaches t a b

theorem mem_below_iff {a b : Attributes} : b ∈ below t a ↔ Reaches t a b := by
  constructor
  · induction a using entry_induction (t := t) with
    | step a ih =>
      intro h
      by_cases hOpen : IsOpen t a
      · cases hDirectory : a.isDirectory with
        | false =>
          rw [below_of_file hDirectory, List.mem_singleton] at h
          rw [h]
          exact .here hOpen
        | true =>
          rw [below_of_directory hDirectory (hOpen hDirectory), List.mem_cons,
            List.mem_flatMap] at h
          rcases h with rfl | ⟨c, hc, hb⟩
          · exact .here hOpen
          · exact .inside hDirectory hOpen hc (ih hDirectory c hc hb)
      · rw [below_of_not_open hOpen] at h
        cases h
  · intro h
    induction h with
    | @here a hOpen =>
      cases hDirectory : a.isDirectory with
      | false => simp [below_of_file hDirectory]
      | true => simp [below_of_directory hDirectory (hOpen hDirectory)]
    | inside hDirectory hOpen hc hRest ih =>
      rw [below_of_directory hDirectory (hOpen hDirectory), List.mem_cons, List.mem_flatMap]
      exact .inr ⟨_, hc, ih⟩

theorem Reaches.trans {a b c : Attributes} (h : Reaches t a b) (h' : Reaches t b c) :
    Reaches t a c := by
  induction h with
  | here => exact h'
  | inside hDirectory hOpen hc _ ih => exact .inside hDirectory hOpen hc (ih h')

theorem Reaches.eq_or_mem_children {a b : Attributes} (h : Reaches t a b) :
    b = a ∨ ∃ p, b ∈ children t p := by
  induction h with
  | here => exact .inl rfl
  | inside _ _ hc _ ih =>
    rcases ih with rfl | hOther
    · exact .inr ⟨_, hc⟩
    · exact .inr hOther

/-! ## Paths of visited entries -/

theorem exists_child_of_mem_children {p : Path} {c : Attributes} (h : c ∈ children t p) :
    ∃ name, c.path = p.child name := by
  obtain ⟨_, name, -, -, hChild⟩ := exists_name_of_mem_children h
  exact ⟨name, childAt_path hChild⟩

theorem isAbsolute_of_mem_children (hTree : t.WellFormed) {p : Path} (h : p.IsAbsolute)
    {c : Attributes} (hc : c ∈ children t p) : c.path.IsAbsolute := by
  obtain ⟨place, name, -, hName, hChild⟩ := exists_name_of_mem_children hc
  rw [childAt_path hChild]
  exact h.child (hTree.isName hName) (Tree.mem_namesIn_ne hName)

theorem Reaches.isAbsolute (hTree : t.WellFormed) {a b : Attributes} (h : Reaches t a b)
    (ha : a.path.IsAbsolute) : b.path.IsAbsolute := by
  induction h with
  | here => exact ha
  | inside _ _ hc _ ih => exact ih (isAbsolute_of_mem_children hTree ha hc)

theorem isUnder_of_mem_children {p : Path} {c : Attributes} (h : c ∈ children t p) :
    c.path.isUnder p = true := by
  obtain ⟨name, hPath⟩ := exists_child_of_mem_children h
  rw [hPath]
  exact Path.isUnder_iff.mpr ⟨rfl, List.prefix_append p.names [name]⟩

theorem Reaches.isUnder {a b : Attributes} (h : Reaches t a b) : b.path.isUnder a.path = true := by
  induction h with
  | here => exact Path.isUnder_refl _
  | inside _ _ hc _ ih => exact Path.isUnder_trans ih (isUnder_of_mem_children hc)

theorem isUnder_child_ne {p : Path} {c : Attributes} (hc : c ∈ children t p) :
    p.isUnder c.path ≠ true := by
  intro h
  obtain ⟨name, hPath⟩ := exists_child_of_mem_children hc
  have hLength := (Path.isUnder_iff.mp h).2.length_le
  rw [hPath, Path.child, List.length_append] at hLength
  exact Nat.not_succ_le_self _ hLength

theorem eq_of_isUnder_children (hTree : t.WellFormed) {p q : Path} {c d : Attributes}
    (hc : c ∈ children t p) (hd : d ∈ children t p) (hUnder : q.isUnder c.path = true)
    (hUnder' : q.isUnder d.path = true) : c = d := by
  obtain ⟨name, hPath⟩ := exists_child_of_mem_children hc
  obtain ⟨other, hPath'⟩ := exists_child_of_mem_children hd
  have hPrefix := (Path.isUnder_iff.mp hUnder).2
  have hPrefix' := (Path.isUnder_iff.mp hUnder').2
  have hLength : c.path.names.length = d.path.names.length := by
    rw [hPath, hPath']
    simp [Path.child]
  have hNames : c.path.names = d.path.names :=
    (List.prefix_of_prefix_length_le hPrefix hPrefix'
      (Nat.le_of_eq hLength)).eq_of_length hLength
  apply List.inj_on_of_nodup_map (nodup_children_paths hTree p) hc hd
  rw [hPath, hPath'] at hNames ⊢
  exact congrArg (Path.mk p.anchor) hNames

theorem nodup_below_paths (hTree : t.WellFormed) (a : Attributes) :
    ((below t a).map (·.path)).Nodup := by
  induction a using entry_induction (t := t) with
  | step a ih =>
    by_cases hOpen : IsOpen t a
    · cases hDirectory : a.isDirectory with
      | false => simp [below_of_file hDirectory]
      | true =>
        rw [below_of_directory hDirectory (hOpen hDirectory), List.map_cons, List.map_flatMap,
          List.nodup_cons, List.nodup_flatMap]
        refine ⟨?_, fun c hc => ih hDirectory c hc, ?_⟩
        · intro hMem
          obtain ⟨c, hc, hMem⟩ := List.mem_flatMap.mp hMem
          obtain ⟨b, hb, hPath⟩ := List.mem_map.mp hMem
          exact isUnder_child_ne hc (hPath ▸ (mem_below_iff.mp hb).isUnder)
        · apply (List.pairwise_map.mp (nodup_children_paths hTree a.path)).imp_of_mem
          intro c d hc hd hNe path hMem hMem'
          obtain ⟨b, hb, rfl⟩ := List.mem_map.mp hMem
          obtain ⟨b', hb', hPath⟩ := List.mem_map.mp hMem'
          exact hNe (congrArg (·.path) (eq_of_isUnder_children hTree hc hd
            (mem_below_iff.mp hb).isUnder (hPath ▸ (mem_below_iff.mp hb').isUnder)))
    · simp [below_of_not_open hOpen]

theorem nodup_visits_paths (hTree : t.WellFormed) (root : Path) :
    ((visits t root).map (·.path)).Nodup := by
  cases hRoot : t.attributes root with
  | error fault => simp [visits_of_fault hRoot]
  | ok a =>
    rw [visits_of_attributes hRoot]
    exact nodup_below_paths hTree a

/-- What is visited below an entry is visited from it. -/
theorem Reaches.of_isUnder (hTree : t.WellFormed) {a b c : Attributes} (hb : Reaches t a b)
    (hc : Reaches t a c) (hUnder : c.path.isUnder b.path = true) : Reaches t b c := by
  induction hb with
  | here => exact hc
  | inside hDirectory hOpen hd hRest ih =>
    cases hc with
    | here => exact absurd (Path.isUnder_trans hUnder hRest.isUnder) (isUnder_child_ne hd)
    | inside _ _ he hRest' =>
      obtain rfl := eq_of_isUnder_children hTree hd he (Path.isUnder_trans hUnder hRest.isUnder)
        hRest'.isUnder
      exact ih hRest' hUnder

section

variable {root : Path} {b : Attributes}

theorem isAbsolute_of_mem_visits (hTree : t.WellFormed) (hRoot : root.IsAbsolute)
    (h : b ∈ visits t root) : b.path.IsAbsolute := by
  obtain ⟨a, hAttributes, hb⟩ := attributes_of_mem_visits h
  exact (mem_below_iff.mp hb).isAbsolute hTree (Tree.attributes_path hAttributes ▸ hRoot)

theorem isUnder_of_mem_visits (h : b ∈ visits t root) : b.path.isUnder root = true := by
  obtain ⟨a, hAttributes, hb⟩ := attributes_of_mem_visits h
  exact Tree.attributes_path hAttributes ▸ (mem_below_iff.mp hb).isUnder

theorem covers_of_mem_visits (hTree : t.WellFormed) (hRoot : root.IsAbsolute)
    (h : b ∈ visits t root) : root.Covers b.path.text :=
  (hRoot.isRooted.covers_text_iff (isAbsolute_of_mem_visits hTree hRoot h).isRooted
    (Path.isUnder_iff.mp (isUnder_of_mem_visits h)).1).mpr (isUnder_of_mem_visits h)

theorem nodup_visits_texts (hTree : t.WellFormed) (hRoot : root.IsAbsolute) :
    ((visits t root).map (·.path.text)).Nodup := by
  have hTexts :
      (visits t root).map (·.path.text) = ((visits t root).map (·.path)).map (·.text) := by
    rw [List.map_map]
    rfl
  rw [hTexts]
  refine List.Nodup.map_on ?_ (nodup_visits_paths hTree root)
  intro p hp q hq hText
  obtain ⟨a, ha, rfl⟩ := List.mem_map.mp hp
  obtain ⟨b, hb, rfl⟩ := List.mem_map.mp hq
  have hAnchor := (Path.isUnder_iff.mp (isUnder_of_mem_visits ha)).1
  have hAnchor' := (Path.isUnder_iff.mp (isUnder_of_mem_visits hb)).1
  exact (isAbsolute_of_mem_visits hTree hRoot ha).isRooted.eq_of_text_eq
    (isAbsolute_of_mem_visits hTree hRoot hb).isRooted (hAnchor.trans hAnchor'.symm) hText

end

end MediaIndex.Walk
