import MediaIndex.Disk.Lookup

/-!
# Making directories and writing files

A directory can be made where its parent is, nothing else stands, and the parent takes the name;
listing the parent may fail. Making a path of directories also makes the parents that are missing,
and is content with a directory that already stands there; what was made before a failure stays.

A file that is opened to be written anew is made if its directory is there. A text that ends in a
slash or in a dot names a directory, so it is no file to write. A pipe is taken to have a reader, and
a file that is open to have room for what is written.
-/

namespace MediaIndex.Disk.Tree

def makeDirectory (t : Tree) (p : Path) : Except Fault Tree :=
  match p.names.getLast? with
  | none => .error (.failed .alreadyExists p.text)
  | some last => do
    let (above, node) ← t.found p.text (t.place? p.names.dropLast)
    if !node.isDirectory then .error (.failed .notDirectory p.text)
    else if last = ".." ∨ (t.node? (above ++ [last])).isSome then
      .error (.failed .alreadyExists p.text)
    else match node.obstacleToMake last with
      | some obstacle => .error (obstacle.fault p.text)
      | none => .ok (t.setNode (above ++ [last]) (Node.plain .directory))

def settleDirectory (t : Tree) (p : Path) (fault : Fault) : Tree × Option Fault :=
  match fault with
  | .interrupted => (t, some fault)
  | .failed _ _ => match t.isDirectory? p with
    | .ok true => (t, none)
    | .ok false => (t, some fault)
    | .error other => (t, some other)

def ensureDirectory (t : Tree) (p : Path) : Tree × Option Fault :=
  match t.makeDirectory p with
  | .ok made => (made, none)
  | .error (.failed .notFound path) => (t, some (.failed .notFound path))
  | .error fault => t.settleDirectory p fault

def ensureDirectories (t : Tree) (p : Path) : Tree × Option Fault :=
  match t.makeDirectory p with
  | .ok made => (made, none)
  | .error (.failed .notFound path) =>
    if p.names = [] then (t, some (.failed .notFound path))
    else
      match ensureDirectories t p.parent with
      | (made, none) => made.ensureDirectory p
      | failed => failed
  | .error fault => t.settleDirectory p fault
termination_by p.names.length
decreasing_by
  rename_i h
  simp only [Path.parent, List.length_dropLast]
  have := List.length_pos_iff.2 h
  omega

/-- Why the node that a text leads to cannot be written anew; `last` is what follows the last slash of
the text. -/
def reasonNotToWrite (n : Node) (last : Option (List Char)) : Option Reason :=
  if n.isDirectory ∨ last = some [] then some .isDirectory
  else if last = some ['.'] then some .notDirectory
  else if n.kind = .socket then some .noDevice
  else n.writeObstacle

/-- Why a file that is missing in the directory cannot be made. -/
def reasonNotToAdd (n : Node) (last : Option (List Char)) : Option Reason :=
  if last = some [] then some .isDirectory
  else if last = some ['.'] then some .notFound
  else n.writeObstacle

def granted (path : String) : Option Reason → Except Fault Unit
  | some r => .error (.failed r path)
  | none => .ok ()

/-- Opening a file to write it anew. A file that is missing is made, if its directory is there. -/
def openToWrite (t : Tree) (text : String) : Except Fault Unit :=
  let last := (Text.splitAt '/' text.toList).getLast?
  match t.place? (Path.namesOf text) with
  | .ok place => granted text ((t.node? place).bind (reasonNotToWrite · last))
  | .error ⟨.reason .notFound, above, [_]⟩ =>
    granted text ((t.node? above).bind (reasonNotToAdd · last))
  | .error stop => .error (stop.obstacle.fault text)

end MediaIndex.Disk.Tree
