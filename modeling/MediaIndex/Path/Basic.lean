import MediaIndex.Text.Segments

/-!
# Paths

A path is where it starts and the names that follow. Writing it with more slashes than needed, or
with single dots, does not make another path; double dots are kept, for what they lead to depends on
links.
-/

namespace MediaIndex

/-- Where a path starts. Exactly two slashes in front are a start of their own. -/
inductive Anchor where
  | here
  | root
  | doubleRoot
  deriving DecidableEq, Repr

structure Path where
  anchor : Anchor
  names : List String
  deriving DecidableEq, Repr

namespace Anchor

def text : Anchor → String
  | here => ""
  | root => "/"
  | doubleRoot => "//"

def ofChars (cs : List Char) : Anchor :=
  match (cs.takeWhile (· == '/')).length with
  | 0 => here
  | 2 => doubleRoot
  | _ => root

end Anchor

namespace Path

def namesOf (text : String) : List String :=
  ((Text.splitAt '/' text.toList).map String.ofList).filter fun name => name ≠ "" ∧ name ≠ "."

def ofText (text : String) : Path :=
  ⟨Anchor.ofChars text.toList, namesOf text⟩

def text (p : Path) : String :=
  if p.anchor = .here ∧ p.names = [] then "."
  else p.anchor.text ++ String.intercalate "/" p.names

instance : ToString Path := ⟨text⟩

def root : Path := ⟨.root, []⟩

def name (p : Path) : String :=
  p.names.getLast?.getD ""

def parent (p : Path) : Path :=
  { p with names := p.names.dropLast }

def child (p : Path) (name : String) : Path :=
  { p with names := p.names ++ [name] }

/-- The path that a text leads to from a path. A text with a slash in front starts anew. -/
def append (p : Path) (text : String) : Path :=
  let more := ofText text
  if more.anchor = .here then { p with names := p.names ++ more.names } else more

/-- The directory above a path that is free of links. Above a directory that has no name yet stands
one that has none either. -/
def above (p : Path) : Path :=
  if p.anchor = .here ∧ p.names.getLast?.all (· = "..") then p.child ".." else p.parent

def parents (p : Path) : List Path :=
  (List.range p.names.length).reverse.map fun count => { p with names := p.names.take count }

def hasZero (p : Path) : Bool :=
  p.names.any Text.hasZero

def isUnder (p ancestor : Path) : Bool :=
  p.anchor == ancestor.anchor && ancestor.names.isPrefixOf p.names

@[simp] theorem parent_child (p : Path) (name : String) : (p.child name).parent = p := by
  simp [parent, child]

@[simp] theorem name_child (p : Path) (name : String) : (p.child name).name = name := by
  simp [Path.name, child]

theorem hasZero_parent {p : Path} (h : p.hasZero = false) : p.parent.hasZero = false := by
  rw [hasZero, List.any_eq_false] at h ⊢
  exact fun name hName => h name (List.dropLast_subset _ hName)

def beforeLastDot (name : String) : String :=
  match Text.cutLast? '.' name.toList with
  | some (front, _) => String.ofList front
  | none => name

def afterLastDot? (name : String) : Option String :=
  (Text.cutLast? '.' name.toList).map fun (_, back) => String.ofList back

/-- The name without its last extension. A dot at either end starts none. -/
def stem (p : Path) : String :=
  match Text.cutLast? '.' p.name.toList with
  | some (front, back) => if front = [] ∨ back = [] then p.name else String.ofList front
  | none => p.name

/-- Takes names one by one; a double dot takes the last one back, and at the start does nothing. -/
def settle (names : List String) : List String :=
  names.foldl (fun done name => if name = ".." then done.dropLast else done ++ [name]) []

/-- The path from the root that is meant by a path of the program, whose directory is the root.
Double dots are resolved on the text alone, without regard to links. -/
def absolute (p : Path) : Path :=
  { anchor := if p.anchor = .here then .root else p.anchor, names := settle p.names }

end Path

end MediaIndex
