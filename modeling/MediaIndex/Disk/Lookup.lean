import MediaIndex.Disk.Tree

/-!
# Looking up paths

A lookup goes down name by name. At each name it checks that it stands at a directory, that the
directory may be searched, and that the name is there; a double dot goes up and stays at the root. A
name that the directory cannot hold is refused, and any other that is not there is not found.
Lookups follow links, though not more than forty in one of them. A lookup that fails tells where it
came to and which names were still ahead.
-/

namespace MediaIndex.Disk

def linkLimit : Nat := 40

/-- Where a lookup ends: why, at which place, and the names from the one that failed on. -/
structure DeadEnd where
  obstacle : Obstacle
  place : Place
  ahead : List String
  deriving DecidableEq

namespace Tree

/-- The place that a name leads to from a place, before links are followed. -/
def enter (t : Tree) (place : Place) (name : String) : Except Obstacle Place :=
  match t.node? place with
  | none => .error (.reason .notFound)
  | some here =>
    if !here.isDirectory then .error (.reason .notDirectory)
    else match here.searchObstacle with
      | some obstacle => .error obstacle
      | none =>
        if name = ".." then .ok place.dropLast
        else if (t.node? (place ++ [name])).isSome then .ok (place ++ [name])
        else .error (.reason ((here.refusals.lookup name).getD .notFound))

def linkText? (t : Tree) (place : Place) : Option String :=
  ((t.node? place).filter (·.isLink)).map (·.target)

def linkTarget? (t : Tree) (place : Place) : Option Path :=
  (t.linkText? place).map Path.ofText

def startOf (p : Path) (place : Place) : Place :=
  if p.anchor = .here then place else []

/-- Follows names from a place: the place they lead to and how many links may still be followed. -/
def follow (t : Tree) (links : Nat) (place : Place) :
    List String → Except DeadEnd (Place × Nat)
  | [] => .ok (place, links)
  | name :: names =>
    match t.enter place name with
    | .error obstacle => .error ⟨obstacle, place, name :: names⟩
    | .ok next =>
      match t.linkTarget? next with
      | none => follow t links next names
      | some target =>
        match links with
        | 0 => .error ⟨.reason .tooManyLinks, place, name :: names⟩
        | links + 1 => follow t links (startOf target place) (target.names ++ names)
termination_by names => (links, names.length)

def place? (t : Tree) (names : List String) : Except DeadEnd Place :=
  (t.follow linkLimit [] names).map (·.1)

/-- The place that names lead to, the last one not followed if it is a link. -/
def ownPlace? (t : Tree) (names : List String) : Except DeadEnd Place :=
  match names.getLast? with
  | none => .ok []
  | some last => do
    let above ← t.place? names.dropLast
    (t.enter above last).mapError fun obstacle => ⟨obstacle, above, [last]⟩

@[simp] theorem place?_nil (t : Tree) : t.place? [] = .ok [] := by
  rw [place?, follow]
  rfl

theorem place?_singleton {t : Tree} {name : String} {place : Place}
    (hEnter : t.enter [] name = .ok place) (hLink : t.linkTarget? place = none) :
    t.place? [name] = .ok place := by
  rw [place?, follow, hEnter]
  simp only [hLink]
  rw [follow]
  rfl

theorem ownPlace?_singleton (t : Tree) (name : String) :
    t.ownPlace? [name] = (t.enter [] name).mapError fun obstacle => ⟨obstacle, [], [name]⟩ := by
  change (t.place? [] >>= fun above => (t.enter above name).mapError _) = _
  rw [place?_nil]
  rfl

def found (t : Tree) (path : String) (result : Except DeadEnd Place) :
    Except Fault (Place × Node) :=
  match result with
  | .error stop => .error (stop.obstacle.fault path)
  | .ok place => match t.node? place with
    | some node => .ok (place, node)
    | none => .error (.failed .notFound path)

def locate (t : Tree) (p : Path) : Except Fault (Place × Node) :=
  t.found p.text (t.place? p.names)

def locateOwn (t : Tree) (p : Path) : Except Fault (Place × Node) :=
  t.found p.text (t.ownPlace? p.names)

def readable (path : String) (target : Place × Node) : Except Fault (Place × Node) :=
  match target.2.statObstacle with
  | some obstacle => .error (obstacle.fault path)
  | none => .ok target

def stat (t : Tree) (p : Path) : Except Fault (Place × Node) := do
  readable p.text (← t.locate p)

def statOwn (t : Tree) (p : Path) : Except Fault (Place × Node) := do
  readable p.text (← t.locateOwn p)

/-- A question about what a path leads to. Where it leads nowhere the answer is no. -/
def holds (t : Tree) (p : Path) (question : Node → Bool) : Except Fault Bool :=
  match t.stat p with
  | .ok (_, node) => .ok (question node)
  | .error (.failed r path) => if r.isAbsence then .ok false else .error (.failed r path)
  | .error .interrupted => .error .interrupted

def exists? (t : Tree) (p : Path) : Except Fault Bool := t.holds p fun _ => true

def isDirectory? (t : Tree) (p : Path) : Except Fault Bool := t.holds p (·.isDirectory)

def isFile? (t : Tree) (p : Path) : Except Fault Bool := t.holds p (·.isFile)

theorem holds_of_stat {t : Tree} {p : Path} {target : Place × Node} (h : t.stat p = .ok target)
    (question : Node → Bool) : t.holds p question = .ok (question target.2) := by
  rw [holds, h]

theorem isDirectory?_of_stat {t : Tree} {p : Path} {target : Place × Node}
    (h : t.stat p = .ok target) : t.isDirectory? p = .ok target.2.isDirectory :=
  holds_of_stat h _

theorem holds_eq_true_iff {t : Tree} {p : Path} {question : Node → Bool} :
    t.holds p question = .ok true ↔
      ∃ target, t.stat p = .ok target ∧ question target.2 = true := by
  unfold holds
  cases t.stat p with
  | ok target => simp
  | error fault =>
    cases fault with
    | interrupted => simp
    | failed r path => cases r <;> simp [Reason.isAbsence]

def media (t : Tree) (p : Path) : Except Fault Media.Decoded := do
  let (_, node) ← t.locate p
  return node.media

/-- Whatever is there can be opened to be read, unless an obstacle is stated for it. -/
def openToRead (t : Tree) (p : Path) : Except Fault Unit := do
  let (_, node) ← t.locate p
  match node.openObstacle with
  | some obstacle => .error (obstacle.fault p.text)
  | none => .ok ()

end Tree

end MediaIndex.Disk
