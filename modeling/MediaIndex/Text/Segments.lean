/-!
# Segments of a text

Cutting a text at a character, and finding, dropping or replacing what stands inside it.
-/

namespace MediaIndex.Text

/-- The segments between the occurrences of a character; there is always at least one. -/
def splitAt (sep : Char) : List Char → List (List Char)
  | [] => [[]]
  | c :: cs =>
    if c = sep then [] :: splitAt sep cs
    else match splitAt sep cs with
      | [] => [[c]]
      | segment :: rest => (c :: segment) :: rest

theorem splitAt_ne_nil (sep : Char) (cs : List Char) : splitAt sep cs ≠ [] := by
  cases cs with
  | nil => simp [splitAt]
  | cons c cs =>
    rw [splitAt]
    split
    · simp
    · split <;> simp

def joinWith (sep : Char) : List (List Char) → List Char
  | [] => []
  | [segment] => segment
  | segment :: rest => segment ++ sep :: joinWith sep rest

theorem joinWith_splitAt (sep : Char) (cs : List Char) : joinWith sep (splitAt sep cs) = cs := by
  induction cs with
  | nil => rfl
  | cons c cs ih =>
    rw [splitAt]
    split
    · next h =>
      subst h
      cases hs : splitAt c cs with
      | nil => exact absurd hs (splitAt_ne_nil c cs)
      | cons s rest => simp [joinWith, ← hs, ih]
    · cases hs : splitAt sep cs with
      | nil => exact absurd hs (splitAt_ne_nil sep cs)
      | cons s rest =>
        rw [hs] at ih
        cases rest <;> simp_all [joinWith]

def cutLast? (sep : Char) : List Char → Option (List Char × List Char)
  | [] => none
  | c :: cs => match cutLast? sep cs with
    | some (front, back) => some (c :: front, back)
    | none => if c = sep then some ([], cs) else none

def dropStart? : List Char → List Char → Option (List Char)
  | [], cs => some cs
  | _ :: _, [] => none
  | p :: ps, c :: cs => if p = c then dropStart? ps cs else none

/-- A zero character, which no text that is passed to the system may hold. -/
def hasZero (s : String) : Bool :=
  s.toList.contains (Char.ofNat 0)

def hasSegment (part : List Char) : List Char → Bool
  | [] => part.isEmpty
  | c :: cs => (dropStart? part (c :: cs)).isSome || hasSegment part cs

/-- Drops the given text wherever it stands, from the left and without overlap: `skip` counts the
characters of the last find that are still to be dropped. -/
def dropEachFrom (part : List Char) : Nat → List Char → List Char
  | _, [] => []
  | skip + 1, _ :: cs => dropEachFrom part skip cs
  | 0, c :: cs =>
    if part ≠ [] ∧ (dropStart? part (c :: cs)).isSome
    then dropEachFrom part (part.length - 1) cs
    else c :: dropEachFrom part 0 cs

def dropEach (part cs : List Char) : List Char :=
  dropEachFrom part 0 cs

/-- The first `count` occurrences of a character replaced by another. -/
def replaceFirst (old new : Char) : Nat → List Char → List Char
  | 0, cs => cs
  | _ + 1, [] => []
  | count + 1, c :: cs =>
    if c = old then new :: replaceFirst old new count cs
    else c :: replaceFirst old new (count + 1) cs

end MediaIndex.Text
