import MediaIndex.Catalog.CatalogFile
import MediaIndex.Disk.Lookup

/-!
# Where a catalog stands

What keeps catalogs in files looks for a file in its own way before it opens it: double dots count as
they are written, names that are not there are passed over, and each link on the way is followed, more
of them than a lookup on the disk would follow. So a path may lead over a link to a file that is not
there yet, as long as its directory is. No path may grow too long on the way. A file is opened unless
what stands in its place is none; whether it can then be prepared depends on what it holds and on
whether it can be written. One name stands for no file but for a catalog in memory, and none is read
as a URI.
-/

namespace MediaIndex.Catalog

open Disk (Fault Node Tree)

/-- The path stands for a catalog in memory, a new one each time it is opened. -/
def isInMemory (p : Path) : Bool :=
  p.text = ":memory:"

/-- The links that are followed on the way to a catalog. -/
def linksOnTheWay : Nat := 201

/-- The bytes that a path may have on the way to a catalog. -/
def bytesOnTheWay : Nat := 511

/-- The bytes that the path of a catalog may have. The files kept beside it have longer names. -/
def bytesAtTheEnd : Nat := 504

/-- The names from the root that a path comes to once it is free of links. -/
def settle (t : Tree) (links : Nat) (done : List String) : List String → Except Fault (List String)
  | [] => .ok done
  | name :: names =>
    if name = ".." then settle t links done.dropLast names
    else
      let next : Path := ⟨.root, done ++ [name]⟩
      if bytesOnTheWay < next.text.utf8ByteSize then .error (.failed .nameTooLong next.text)
      else match t.statOwn next with
      | .error (.failed .notFound _) => settle t links next.names names
      | .error fault => .error fault
      | .ok (place, _) => match t.linkTarget? place with
        | none => settle t links next.names names
        | some target => match links with
          | 0 => .error (.failed .tooManyLinks next.text)
          | links + 1 => settle t links (Tree.startOf target done) (target.names ++ names)
termination_by names => (links, names.length)

/-- On the way to a catalog a name that is not there is passed over. -/
theorem settle_of_notFound {t : Tree} {links : Nat} {done names : List String} {name text : String}
    (hUp : name ≠ "..")
    (hShort : (⟨.root, done ++ [name]⟩ : Path).text.utf8ByteSize ≤ bytesOnTheWay)
    (hStat : t.statOwn ⟨.root, done ++ [name]⟩ = .error (.failed .notFound text)) :
    settle t links done (name :: names) = settle t links (done ++ [name]) names := by
  rw [settle, if_neg hUp]
  simp only [Nat.not_lt.mpr hShort, if_false, hStat]

/-- A directory that cannot be written lets no catalog be made in it, nor one that is there be
prepared. -/
def directoryObstruction (directory : Node) (isThere : Bool) : Obstruction :=
  if directory.writeObstacle.isNone then .none
  else if isThere then .unprepared .readOnly
  else .unopened .cannotOpen

/-- A file of a single byte counts as empty, and a catalog can be made of it. -/
def fileObstruction (n : Node) (known : Option CatalogFile) : Obstruction :=
  match n.kind with
  | .directory | .link | .socket => .unopened .cannotOpen
  | .fifo => .unopened .ioError
  | .device => .unprepared .ioError
  | .file =>
    if 1 < n.content.utf8ByteSize then .unprepared .notACatalog
    else if n.writeObstacle.isSome ∧ !known.any (·.isComplete) then .unprepared .readOnly
    else .none

/-- What the tree shows at a path free of links to obstruct a catalog. -/
def siteObstruction (t : Tree) (known : Option CatalogFile) (names : List String) :
    Except Fault Obstruction :=
  if bytesAtTheEnd < (⟨.root, names⟩ : Path).text.utf8ByteSize then .ok (.unopened .cannotOpen)
  else match t.ownPlace? names with
  | .error ⟨.interrupt, _, _⟩ => .error .interrupted
  | .error ⟨.reason .notFound, above, [_]⟩ => .ok <| match t.node? above with
    | some directory => directoryObstruction directory known.isSome
    | none => .unopened .cannotOpen
  | .error _ => .ok (.unopened .cannotOpen)
  | .ok place => match t.node? place, t.node? place.dropLast with
    | some node, some directory => match node.openObstacle with
      | some .interrupt => .error .interrupted
      | some (.reason _) => .ok (.unopened .cannotOpen)
      | none => .ok <| match fileObstruction node known with
        | .none => directoryObstruction directory true
        | obstruction => obstruction
    | _, _ => .ok (.unopened .cannotOpen)

end MediaIndex.Catalog
