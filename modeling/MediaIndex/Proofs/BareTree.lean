import MediaIndex.Proofs.Lookups
import MediaIndex.Proofs.WalkVisits
import MediaIndex.Reconcile.Pass

/-!
# Trees without their media

What decoders make of a file is asked for only when the file is taken in. Without it a tree answers
every other question as before: where paths lead, what a directory lists, which volume holds a path,
what is hidden and what a walk reports. Of two trees that differ in their media alone a file is
therefore taken in alike unless its own media differ.
-/

namespace MediaIndex.Disk

def Node.bare (n : Node) : Node := { n with media := .nothing }

/-- The tree with nothing that a decoder tells. -/
def Tree.bare (t : Tree) : Tree := ⟨t.root.bare, t.nodes.map fun entry => (entry.1, entry.2.bare)⟩

def bareTarget : Except Fault (Place × Node) → Except Fault (Place × Node) :=
  Except.map fun target => (target.1, target.2.bare)

namespace Tree

variable (t : Tree)

/-! ## Lookups -/

theorem bare_eq_mapNodes : t.bare = t.mapNodes fun _ => Node.bare := rfl

theorem sameShape_bare : t.SameShape t.bare :=
  t.bare_eq_mapNodes ▸ t.sameShape_mapNodes fun _ _ => rfl

@[simp] theorem node?_bare (place : Place) :
    t.bare.node? place = (t.node? place).map Node.bare :=
  t.node?_mapNodes (fun _ => Node.bare) place

@[simp] theorem namesIn_bare (place : Place) : t.bare.namesIn place = t.namesIn place :=
  t.namesIn_mapNodes (fun _ => Node.bare) place

@[simp] theorem deviceAt_bare (place : Place) : t.bare.deviceAt place = t.deviceAt place := by
  have hStated : ∀ count : Nat, (t.bare.node? (place.take count)).bind (·.device) =
      (t.node? (place.take count)).bind (·.device) := by
    intro count
    rw [node?_bare, Option.bind_map]
    rfl
  simp only [deviceAt, hStated]

@[simp] theorem linkText?_bare (place : Place) : t.bare.linkText? place = t.linkText? place :=
  t.sameShape_bare.linkText? place

@[simp] theorem place?_bare (names : List String) : t.bare.place? names = t.place? names :=
  t.sameShape_bare.place? names

@[simp] theorem ownPlace?_bare (names : List String) :
    t.bare.ownPlace? names = t.ownPlace? names :=
  t.sameShape_bare.ownPlace? names

@[simp] theorem found_bare (path : String) (result : Except DeadEnd Place) :
    t.bare.found path result = bareTarget (t.found path result) := by
  cases result with
  | error stop => rfl
  | ok place =>
    simp only [found, node?_bare]
    cases t.node? place <;> rfl

@[simp] theorem locate_bare (p : Path) : t.bare.locate p = bareTarget (t.locate p) := by
  rw [locate, locate, place?_bare, found_bare]

@[simp] theorem locateOwn_bare (p : Path) : t.bare.locateOwn p = bareTarget (t.locateOwn p) := by
  rw [locateOwn, locateOwn, ownPlace?_bare, found_bare]

theorem readable_bare (path : String) (target : Place × Node) :
    readable path (target.1, target.2.bare) = bareTarget (readable path target) := by
  rw [readable, readable]
  have hObstacle : target.2.bare.statObstacle = target.2.statObstacle := rfl
  rw [hObstacle]
  cases target.2.statObstacle <;> rfl

@[simp] theorem stat_bare (p : Path) : t.bare.stat p = bareTarget (t.stat p) := by
  rw [stat, stat, locate_bare]
  cases t.locate p with
  | error fault => rfl
  | ok target => exact readable_bare p.text target

@[simp] theorem statOwn_bare (p : Path) : t.bare.statOwn p = bareTarget (t.statOwn p) := by
  rw [statOwn, statOwn, locateOwn_bare]
  cases t.locateOwn p with
  | error fault => rfl
  | ok target => exact readable_bare p.text target

theorem holds_bare (p : Path) {question : Node → Bool}
    (hQuestion : ∀ n : Node, question n.bare = question n) :
    t.bare.holds p question = t.holds p question := by
  rw [holds, holds, stat_bare]
  cases t.stat p with
  | error fault => rfl
  | ok target => exact congrArg Except.ok (hQuestion target.2)

@[simp] theorem exists?_bare (p : Path) : t.bare.exists? p = t.exists? p :=
  t.holds_bare p fun _ => rfl

@[simp] theorem isDirectory?_bare (p : Path) : t.bare.isDirectory? p = t.isDirectory? p :=
  t.holds_bare p fun _ => rfl

@[simp] theorem isFile?_bare (p : Path) : t.bare.isFile? p = t.isFile? p :=
  t.holds_bare p fun _ => rfl

@[simp] theorem openToRead_bare (p : Path) : t.bare.openToRead p = t.openToRead p := by
  rw [openToRead, openToRead, locate_bare]
  cases t.locate p <;> rfl

/-! ## Attributes and listings -/

@[simp] theorem attributes_bare (p : Path) : t.bare.attributes p = t.attributes p := by
  rw [attributes, attributes, statOwn_bare, isFile?_bare, stat_bare]
  cases t.statOwn p with
  | error fault => rfl
  | ok target =>
    have hLink : target.2.bare.isLink = target.2.isLink := rfl
    simp only [bareTarget, Except.map, bind, Except.bind, hLink]
    cases t.stat p <;> rfl

@[simp] theorem list_bare (p : Path) : t.bare.list p = t.list p := by
  rw [list, list, locate_bare]
  cases t.locate p with
  | error fault => rfl
  | ok target =>
    simp only [bareTarget, Except.map, bind, Except.bind, namesIn_bare]
    rfl

@[simp] theorem linksToFile_bare (p : Path) : t.bare.linksToFile p = t.linksToFile p := by
  rw [linksToFile, linksToFile, stat_bare]
  cases t.stat p <;> rfl

@[simp] theorem entry_bare (p : Path) (kind : NodeKind) : t.bare.entry p kind = t.entry p kind := by
  cases kind with
  | file => simp only [entry, statOwn_bare]; cases t.statOwn p <;> rfl
  | directory => simp only [entry, statOwn_bare]; cases t.statOwn p <;> rfl
  | link => simp only [entry, linksToFile_bare, stat_bare]; cases t.stat p <;> rfl
  | fifo => rfl
  | socket => rfl
  | device => rfl

@[simp] theorem entries_bare (p : Path) : t.bare.entries p = t.entries p := by
  simp only [entries, list_bare, node?_bare, entry_bare, Option.bind_map, Function.comp_def]
  rfl

/-! ## Volumes -/

@[simp] theorem linkAt?_bare (p : Path) : t.bare.linkAt? p = t.linkAt? p := by
  rw [linkAt?, linkAt?, statOwn_bare]
  cases t.statOwn p with
  | error fault => cases fault <;> rfl
  | ok target => exact congrArg Except.ok (t.linkText?_bare target.1)

@[simp] theorem settleLinks_bare (depth : Nat) (done : Path) (met : LinksMet)
    (names : List String) :
    t.bare.settleLinks depth done met names = t.settleLinks depth done met names := by
  fun_induction settleLinks t depth done met names <;> rw [settleLinks] <;>
    simp_all +zetaDelta [-List.lookup_eq_none_iff]

@[simp] theorem canonical_bare (p : Path) : t.bare.canonical p = t.canonical p := by
  have hDepth : t.bare.linkDepth = t.linkDepth := by simp [linkDepth, bare]
  rw [canonical, canonical, settleLinks_bare, hDepth]

@[simp] theorem examine_bare (p : Path) :
    t.bare.examine p = (t.examine p).map (·.map fun target => (target.1, target.2.bare)) := by
  rw [examine, examine, statOwn_bare]
  cases t.statOwn p with
  | error fault => cases fault <;> rfl
  | ok target => rfl

@[simp] theorem isMountPoint_bare (p : Path) : t.bare.isMountPoint p = t.isMountPoint p := by
  rw [isMountPoint, isMountPoint, examine_bare, canonical_bare]
  cases t.examine p with
  | error fault => rfl
  | ok found =>
    cases found with
    | none => rfl
    | some target =>
      simp only [Except.map, Option.map_some, bind, Except.bind]
      cases t.canonical (p.child "..") with
      | error fault => rfl
      | ok above =>
        cases above with
        | none => rfl
        | some above =>
          simp only [examine_bare]
          cases t.examine above with
          | error fault => rfl
          | ok found => cases found <;> simp [Except.map, Node.bare, Node.isLink]

@[simp] theorem firstMountPoint_bare (last : Path) (paths : List Path) :
    t.bare.firstMountPoint last paths = t.firstMountPoint last paths := by
  induction paths generalizing last with
  | nil => rfl
  | cons p paths ih => rw [firstMountPoint, firstMountPoint, isMountPoint_bare, ih]

@[simp] theorem volumeOf_bare (p : Path) : t.bare.volumeOf p = t.volumeOf p := by
  rw [volumeOf, volumeOf, firstMountPoint_bare]

end Tree

end MediaIndex.Disk

namespace MediaIndex.Walk

open Disk

variable (t : Tree)

@[simp] theorem isHidden_bare (directory : Path) :
    isHidden t.bare directory = isHidden t directory := by
  rw [isHidden, isHidden, Tree.exists?_bare]

@[simp] theorem isHiddenLocation_bare (directory : Path) :
    isHiddenLocation t.bare directory = isHiddenLocation t directory := by
  rw [isHiddenLocation, isHiddenLocation]
  generalize directory :: directory.parents = directories
  induction directories with
  | nil => rfl
  | cons p rest ih => rw [anyHidden, anyHidden, isHidden_bare, ih]

@[simp] theorem opening_bare (a : Attributes) : opening t.bare a = opening t a := by
  simp only [opening, isHidden_bare, listingFaults, children, Tree.entries_bare]

@[simp] theorem workOff_bare (agenda : List Task) : workOff t.bare agenda = workOff t agenda := by
  fun_induction workOff t agenda with
  | case1 => rw [workOff]
  | case2 p rest ih => rw [workOff, ih]
  | case3 a rest events h ih =>
    rw [workOff]
    split <;> simp_all
  | case4 a rest events next h ih =>
    rw [workOff]
    split <;> simp_all

@[simp] theorem walk_bare (root : Path) : walk t.bare root = walk t root := by
  rw [walk, walk, Tree.attributes_bare]
  cases t.attributes root with
  | error fault => rfl
  | ok a => exact workOff_bare t [.enter a]

end MediaIndex.Walk

namespace MediaIndex.Media

open Disk (Attributes Fault Tree)

variable {t t' : Tree} {a : Attributes}

/-- A file is taken in by what can be read of it and by its media. -/
theorem takeIn_congr (hOpen : t'.openToRead a.path = t.openToRead a.path)
    (hMedia : t'.media a.path = t.media a.path) (told : Bool) (volume : String) :
    takeIn t' told a volume = takeIn t told a volume := by
  have hDecode : ∀ {α : Type} (type : Option String) (part : Decoded → Part α),
      Source.decode ⟨a, type, volume⟩ t' part = Source.decode ⟨a, type, volume⟩ t part := by
    intro α type part
    simp only [Source.decode, Source.path, hMedia]
  have hExtract : ∀ (category : Category) (type : Option String),
      extract t' category ⟨a, type, volume⟩ = extract t category ⟨a, type, volume⟩ := by
    intro category type
    cases category with
    | directory => rfl
    | playlist => rfl
    | audio => simp only [extract, extractAudio, hDecode]
    | video => simp only [extract, extractVideo, hDecode]
    | image =>
      simp only [extract, extractImage, readPicture, hDecode, Source.path, hOpen]
  simp only [takeIn, hExtract]

end MediaIndex.Media
