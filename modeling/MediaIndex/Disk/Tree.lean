import MediaIndex.Disk.Fault
import MediaIndex.Media.Decoded

/-!
# The tree of files

A tree gives a node to each of finitely many places. A place is the list of names from the root; no
links are followed on the way. What a node does not state has a default, and the default may depend
on other nodes, so it is looked up when it is needed.

Names are texts of Unicode. What a directory cannot hold, such as a name of more bytes than it has
room for, is among the names that it refuses; no size is set for names or for whole paths otherwise.
-/

namespace MediaIndex.Disk

inductive NodeKind where
  | file
  | directory
  | link
  | fifo
  | socket
  | device
  deriving DecidableEq, Repr

/-- What is at a place, with the obstacles that operations on it meet. -/
structure Node where
  kind : NodeKind
  size : Option Int
  modified : Option Binary
  changed : Option Binary
  born : Option Binary
  device : Option Int
  media : Media.Decoded
  content : String
  target : String
  statObstacle : Option Obstacle
  listObstacle : Option Obstacle
  /-- Looking up anything inside the directory fails. -/
  searchObstacle : Option Obstacle
  openObstacle : Option Obstacle
  /-- Writing the file fails, or making anything in the directory. -/
  writeObstacle : Option Reason
  /-- The names that the directory cannot hold, with how looking for one of them fails. -/
  refusals : List (String × Reason)
  /-- Only those who look at the tree meet the obstacles to examining, searching and opening; what
  makes something in it, or opens a catalog, does not. -/
  sparesMakers : Bool

namespace Node

def plain (kind : NodeKind) : Node :=
  ⟨kind, none, none, none, none, none, .nothing, "", "", none, none, none, none, none, [], false⟩

def isLink (n : Node) : Bool := n.kind == .link

def isDirectory (n : Node) : Bool := n.kind == .directory

def isFile (n : Node) : Bool := n.kind == .file

def defaultTime : Binary := ⟨false, 0x17D78400000000, -22⟩

def sizeOrDefault (n : Node) : Int :=
  n.size.getD (if n.isDirectory then 4096 else 0)

def modifiedOrDefault (n : Node) : Binary :=
  n.modified.getD defaultTime

/-- The time of birth where it is known, else the time of the last change of the node, else that
of the last modification. -/
def createdOrDefault (n : Node) : Binary :=
  (n.born <|> n.changed).getD n.modifiedOrDefault

/-- The node as it is for those who make something in the tree. -/
def forMakers (n : Node) : Node :=
  if n.sparesMakers then
    { n with statObstacle := none, searchObstacle := none, openObstacle := none }
  else n

/-- Why an entry of that name cannot be made in the directory. -/
def obstacleToMake (n : Node) (name : String) : Option Obstacle :=
  n.forMakers.searchObstacle <|> (n.refusals.lookup name <|> n.writeObstacle).map .reason

end Node

abbrev Place := List String

/-- The nodes below the root and the root itself; of two nodes for one place the first counts. -/
structure Tree where
  root : Node
  nodes : List (Place × Node)

namespace Tree

def empty : Tree := ⟨Node.plain .directory, []⟩

def node? (t : Tree) (place : Place) : Option Node :=
  if place = [] then some t.root else t.nodes.lookup place

/-- The tree with every node changed, by its place. -/
def mapNodes (t : Tree) (f : Place → Node → Node) : Tree :=
  ⟨f [] t.root, t.nodes.map fun entry => (entry.1, f entry.1 entry.2)⟩

def forMakers (t : Tree) : Tree := t.mapNodes fun _ n => n.forMakers

/-- The names right below a place, in increasing order. A double dot names no entry. -/
def namesIn (t : Tree) (place : Place) : List String :=
  let below := t.nodes.filterMap fun entry =>
    if entry.1.dropLast = place then entry.1.getLast?.filter (· ≠ "..") else none
  below.mergeSort fun a b => decide (a ≤ b)

def setNode (t : Tree) (place : Place) (n : Node) : Tree :=
  if place = [] then { t with root := n }
  else if (t.nodes.lookup place).isSome then
    { t with nodes := t.nodes.map fun entry => if entry.1 = place then (place, n) else entry }
  else { t with nodes := t.nodes ++ [(place, n)] }

def remove (t : Tree) (place : Place) : Tree :=
  { t with nodes := t.nodes.filter fun entry => !place.isPrefixOf entry.1 }

def addDirectories (t : Tree) (places : List Place) : Tree :=
  places.foldl (fun t place =>
    if (t.node? place).isSome then t else t.setNode place (Node.plain .directory)) t

/-- Puts a node at a place; directories above it that are missing are made. What stood there is gone
with all below it, but for the root, below which everything stays. -/
def put (t : Tree) (place : Place) (n : Node) : Tree :=
  let t := if place = [] then t else t.remove place
  (t.addDirectories ((List.range place.length).map place.take)).setNode place n

def move (t : Tree) (source target : Place) : Tree :=
  let moved := t.nodes.filterMap fun entry =>
    if source.isPrefixOf entry.1 then some (target ++ entry.1.drop source.length, entry.2) else none
  let t := (t.remove source).remove target
  let t := t.addDirectories ((List.range target.length).map target.take)
  { t with nodes := t.nodes ++ moved }

/-- The number of the device that holds a place: the nearest one stated on the way up. -/
def deviceAt (t : Tree) (place : Place) : Int :=
  let stated := (List.range (place.length + 1)).reverse.findSome? fun count =>
    (t.node? (place.take count)).bind (·.device)
  stated.getD 1

end Tree

end MediaIndex.Disk
