import MediaIndex.Disk.Listing
import MediaIndex.Media.Category

/-!
# Visibility

A directory is hidden if its name starts with a dot or if it holds a marker. A location is hidden if
any directory on the way to it is.
-/

namespace MediaIndex.Walk

open Disk

def hidingMarker : String := ".nomedia"

def isHidden (t : Tree) (directory : Path) : Except Fault Bool :=
  if Media.isDotName directory.name then .ok true else t.exists? (directory.child hidingMarker)

def anyHidden (t : Tree) : List Path → Except Fault Bool
  | [] => .ok false
  | p :: rest => do
    if ← isHidden t p then return true
    anyHidden t rest

def isHiddenLocation (t : Tree) (directory : Path) : Except Fault Bool :=
  anyHidden t (directory :: directory.parents)

end MediaIndex.Walk
