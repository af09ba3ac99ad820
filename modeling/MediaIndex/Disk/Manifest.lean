import MediaIndex.Disk.Tree
import MediaIndex.Path.Basic

/-!
# Manifests

A manifest states a tree of files as text, one node on a line. The fields of a line stand between
tabs: the kind of the node, its path, and for a file its size and the second of its last
modification, for a link its target. A manifest says nothing of what decoders make of a file.
-/

namespace MediaIndex.Disk.Manifest

def number? (s : String) : Option Nat :=
  if s ≠ "" ∧ s.all Char.isDigit then s.toNat? else none

def file? (size second : Nat) : Option Node :=
  match Double.ofDecimal false second 0 with
  | .finite time => some { Node.plain .file with size := some size, modified := some time }
  | _ => none

def node? (fields : List String) : Option (String × Node) :=
  match fields with
  | ["file", path, size, second] => do
    return (path, ← file? (← number? size) (← number? second))
  | ["directory", path] => some (path, Node.plain .directory)
  | ["link", path, target] => some (path, { Node.plain .link with target })
  | ["fifo", path] => some (path, Node.plain .fifo)
  | ["socket", path] => some (path, Node.plain .socket)
  | ["device", path] => some (path, Node.plain .device)
  | _ => none

def putLine? (t : Tree) (line : String) : Option Tree :=
  (node? ((Text.splitAt '\t' line.toList).map String.ofList)).map fun stated =>
    t.put (Path.ofText stated.1).absolute.names stated.2

def putAll (t : Tree) : List String → Except String Tree
  | [] => .ok t
  | line :: lines => match putLine? t line with
    | some t => putAll t lines
    | none => .error line

def tree (lines : List String) : Except String Tree :=
  putAll .empty (lines.filter (· ≠ ""))

end MediaIndex.Disk.Manifest
