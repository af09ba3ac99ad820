import MediaIndex.Disk.Lookup

/-!
# What lookups see of a node

A lookup sees of a node its kind, where it leads if it is a link, what keeps it from being searched,
and the names that it refuses. Trees whose nodes differ in other things alone send every path to the
same place.
-/

namespace MediaIndex.Disk

/-- What a lookup sees of a node. -/
def Node.shape (n : Node) : NodeKind × String × Option Obstacle × List (String × Reason) :=
  (n.kind, n.target, n.searchObstacle, n.refusals)

namespace Tree

theorem node?_mapNodes (t : Tree) (f : Place → Node → Node) (place : Place) :
    (t.mapNodes f).node? place = (t.node? place).map (f place) := by
  unfold node?
  split
  · next hRoot =>
    subst hRoot
    rfl
  · rw [mapNodes]
    induction t.nodes with
    | nil => rfl
    | cons entry nodes ih =>
      rw [List.map_cons, List.lookup_cons, List.lookup_cons, ih]
      split
      · next hSame =>
        rw [← eq_of_beq hSame]
        rfl
      · rfl

theorem namesIn_mapNodes (t : Tree) (f : Place → Node → Node) (place : Place) :
    (t.mapNodes f).namesIn place = t.namesIn place := by
  rw [namesIn, namesIn, mapNodes, List.filterMap_map]
  rfl

/-- Lookups see no difference between the trees. -/
def SameShape (t t' : Tree) : Prop :=
  ∀ place, (t'.node? place).map Node.shape = (t.node? place).map Node.shape

theorem sameShape_mapNodes (t : Tree) {f : Place → Node → Node}
    (hf : ∀ place n, (f place n).shape = n.shape) : t.SameShape (t.mapNodes f) := by
  intro place
  rw [node?_mapNodes, Option.map_map]
  exact congrArg (Option.map · _) (funext fun n => hf place n)

namespace SameShape

variable {t t' : Tree} (h : t.SameShape t')

include h

theorem enter (place : Place) (name : String) : t'.enter place name = t.enter place name := by
  have hIsSome : (t'.node? (place ++ [name])).isSome = (t.node? (place ++ [name])).isSome := by
    rw [← Option.isSome_map (f := Node.shape), h, Option.isSome_map]
  have hHere := h place
  unfold Tree.enter
  rw [hIsSome]
  cases hNode : t.node? place with
  | none =>
    rw [hNode, Option.map_none, Option.map_eq_none_iff] at hHere
    rw [hHere]
  | some n =>
    rw [hNode, Option.map_some] at hHere
    obtain ⟨n', hNode', hSame⟩ := Option.map_eq_some_iff.mp hHere
    have hKind : n'.isDirectory = n.isDirectory :=
      congrArg (fun shape => shape.1 == NodeKind.directory) hSame
    have hSearch : n'.searchObstacle = n.searchObstacle := congrArg (·.2.2.1) hSame
    have hRefusals : n'.refusals = n.refusals := congrArg (·.2.2.2) hSame
    rw [hNode']
    simp only [hKind, hSearch, hRefusals]

theorem linkText? (place : Place) : t'.linkText? place = t.linkText? place := by
  have hText : ∀ found : Option Node, (found.filter (·.isLink)).map (·.target) =
      ((found.map Node.shape).filter (·.1 == NodeKind.link)).map (·.2.1) := by
    intro found
    rw [Option.filter_map, Option.map_map]
    rfl
  rw [Tree.linkText?, Tree.linkText?, hText, hText, h]

theorem linkTarget? (place : Place) : t'.linkTarget? place = t.linkTarget? place := by
  rw [Tree.linkTarget?, Tree.linkTarget?, h.linkText?]

theorem follow (links : Nat) (place : Place) (names : List String) :
    t'.follow links place names = t.follow links place names := by
  fun_induction Tree.follow t links place names with
  | case1 => rw [Tree.follow]
  | case2 links place name names obstacle hEnter => simp [Tree.follow, h.enter, hEnter]
  | case3 links place name names next hEnter hLink ih =>
    rw [Tree.follow]
    simp only [h.enter, hEnter, h.linkTarget?, hLink]
    exact ih
  | case4 place name names next hEnter target hLink =>
    simp [Tree.follow, h.enter, hEnter, h.linkTarget?, hLink]
  | case5 place name names next hEnter target hLink links ih =>
    rw [Tree.follow]
    simp only [h.enter, hEnter, h.linkTarget?, hLink]
    exact ih

theorem place? (names : List String) : t'.place? names = t.place? names := by
  rw [Tree.place?, Tree.place?, h.follow]

theorem ownPlace? (names : List String) : t'.ownPlace? names = t.ownPlace? names := by
  simp only [Tree.ownPlace?, h.place?, h.enter]

end SameShape

end Tree

end MediaIndex.Disk
