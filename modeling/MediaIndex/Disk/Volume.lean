import MediaIndex.Disk.Lookup

/-!
# Canonical paths and volumes

The canonical path of a path is free of links. What cannot be examined counts as no link. A link
that leads back to itself is left in place, and the text that was still ahead of it, in the link
that led there and in every link before that, is written after it; such a text may start at the root
and so leave the link behind. Below no root a link may lead up and to itself again by a longer path
every time; then there is no canonical path. A directory is the mount point of a volume if the
directory above it is on another device or is the same directory; a path belongs to the volume of
the nearest mount point above it.
-/

namespace MediaIndex.Disk

/-- What came of the links met so far, by the path at which they were met: where they lead, or that
they are still being followed. -/
abbrev LinksMet := List (Path × Option Path)

/-- The path that segments of a text were brought to; `settled` unless a link led back to itself. -/
structure Settling where
  path : Path
  settled : Bool
  met : LinksMet

def segmentsOf (text : String) : List String :=
  (Text.splitAt '/' text.toList).map String.ofList

namespace Tree

def linkAt? (t : Tree) (p : Path) : Except Fault (Option String) :=
  match t.statOwn p with
  | .ok (place, _) => .ok (t.linkText? place)
  | .error (.failed _ _) => .ok none
  | .error .interrupted => .error .interrupted

/-- Brings segments into canonical form from a path that already is. Where more than `depth` links
stand inside one another there is none. -/
def settleLinks (t : Tree) (depth : Nat) (done : Path) (met : LinksMet) :
    List String → Except Fault (Option Settling)
  | [] => .ok (some ⟨done, true, met⟩)
  | name :: rest =>
    if name = "" ∨ name = "." then settleLinks t depth done met rest
    else if name = ".." then settleLinks t depth done.above met rest
    else
      let next := done.child name
      let ahead := String.intercalate "/" rest
      match t.linkAt? next with
      | .error fault => .error fault
      | .ok none => settleLinks t depth next met rest
      | .ok (some target) =>
        match met.lookup next, depth with
        | some (some known), depth => settleLinks t depth known met rest
        | some none, _ => .ok (some ⟨next.append ahead, false, met⟩)
        | none, 0 => .ok none
        | none, depth + 1 =>
          let start := if (Path.ofText target).anchor = .here then done else .root
          match settleLinks t depth start ((next, none) :: met) (segmentsOf target) with
          | .error fault => .error fault
          | .ok none => .ok none
          | .ok (some inner) =>
            if inner.settled then
              settleLinks t (depth + 1) inner.path ((next, some inner.path) :: inner.met) rest
            else .ok (some ⟨inner.path.append ahead, false, inner.met⟩)
termination_by rest => (depth, rest.length)

/-- How many links may stand inside one another before the paths to them grow without end: no lookup
passes more than `linkLimit` of them on the way to each. -/
def linkDepth (t : Tree) : Nat :=
  (t.nodes.length + 1) * (linkLimit + 1)

def canonical (t : Tree) (p : Path) : Except Fault (Option Path) := do
  let start : Path := if p.anchor = .here then ⟨.here, []⟩ else .root
  return (← t.settleLinks t.linkDepth start [] p.names).map (·.path.absolute)

def examine (t : Tree) (p : Path) : Except Fault (Option (Place × Node)) :=
  match t.statOwn p with
  | .ok target => .ok (some target)
  | .error (.failed _ _) => .ok none
  | .error .interrupted => .error .interrupted

/-- The path names the mount point of a volume. -/
def isMountPoint (t : Tree) (p : Path) : Except Fault Bool := do
  let some (place, node) ← t.examine p | return false
  if node.isLink then return false
  let some above ← t.canonical (p.child "..") | return false
  let some (placeAbove, _) ← t.examine above | return false
  return t.deviceAt place != t.deviceAt placeAbove || place == placeAbove

def firstMountPoint (t : Tree) (last : Path) : List Path → Except Fault Path
  | [] => .ok last
  | p :: rest => do
    if ← t.isMountPoint p then return p
    t.firstMountPoint p rest

/-- The mount point of the volume that holds a path, whether or not there is anything at it. -/
def volumeOf (t : Tree) (p : Path) : Except Fault Path :=
  let p := p.absolute
  t.firstMountPoint p (p :: p.parents)

end Tree

end MediaIndex.Disk
