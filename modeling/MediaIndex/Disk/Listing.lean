import MediaIndex.Disk.Lookup

/-!
# Attributes and listings

What a scan learns of a path: its size, its times, and whether it is a directory. A directory lists
its entries by name; a link to a file counts as that file under its own name, other links and
everything that is neither file nor directory are passed over.
-/

namespace MediaIndex.Disk

structure Attributes where
  path : Path
  size : Int
  modified : Binary
  created : Binary
  isDirectory : Bool
  deriving DecidableEq

namespace Attributes

def ofNode (p : Path) (n : Node) (isDirectory : Bool) : Attributes :=
  ⟨p, n.sizeOrDefault, n.modifiedOrDefault, n.createdOrDefault, isDirectory⟩

def modifiedSecond (a : Attributes) : Int :=
  a.modified.truncate

end Attributes

namespace Tree

/-- The attributes of a path. A link to a file has the attributes of the file; any other link is
described itself. -/
def attributes (t : Tree) (p : Path) : Except Fault Attributes := do
  let (_, own) ← t.statOwn p
  if own.isLink then
    if ← t.isFile? p then
      let (_, file) ← t.stat p
      return Attributes.ofNode p file false
  return Attributes.ofNode p own own.isDirectory

def list (t : Tree) (p : Path) : Except Fault (Place × List String) := do
  let (place, node) ← t.locate p
  if !node.isDirectory then .error (.failed .notDirectory p.text)
  else match node.listObstacle with
    | some obstacle => .error (obstacle.fault p.text)
    | none => return (place, t.namesIn place)

/-- A link among the entries of a directory is a link to a file. Only a missing target makes it
none; any other failure is one of the entry. -/
def linksToFile (t : Tree) (p : Path) : Except Fault Bool :=
  match t.stat p with
  | .ok (_, node) => .ok node.isFile
  | .error (.failed .notFound _) => .ok false
  | .error fault => .error fault

def entry (t : Tree) (p : Path) (kind : NodeKind) : Except Fault (Option Attributes) :=
  match kind with
  | .link => do
    if ← t.linksToFile p then
      let (_, file) ← t.stat p
      return some (Attributes.ofNode p file false)
    return none
  | .file => do return some (Attributes.ofNode p (← t.statOwn p).2 false)
  | .directory => do return some (Attributes.ofNode p (← t.statOwn p).2 true)
  | .fifo | .socket | .device => .ok none

theorem linksToFile_eq_true_iff {t : Tree} {p : Path} :
    t.linksToFile p = .ok true ↔ ∃ target, t.stat p = .ok target ∧ target.2.isFile = true := by
  unfold linksToFile
  cases t.stat p with
  | ok target => simp
  | error fault =>
    cases fault with
    | interrupted => simp
    | failed r path => cases r <;> simp

/-- An entry that a listing goes on with is a file or a directory, described itself, or a link that
is described as the file it leads to. -/
theorem entry_eq_some_iff {t : Tree} {p : Path} {kind : NodeKind} {a : Attributes} :
    t.entry p kind = .ok (some a) ↔
      (kind = .file ∨ kind = .directory) ∧
          (∃ own, t.statOwn p = .ok own ∧ a = .ofNode p own.2 (kind == .directory)) ∨
        kind = .link ∧
          ∃ file, t.stat p = .ok file ∧ file.2.isFile = true ∧ a = .ofNode p file.2 false := by
  constructor
  · intro h
    cases kind with
    | file =>
      cases hOwn : t.statOwn p with
      | error fault => simp [entry, hOwn, bind, Except.bind] at h
      | ok own =>
        simp only [entry, hOwn, bind, Except.bind, pure, Except.pure, Except.ok.injEq,
          Option.some.injEq] at h
        exact .inl ⟨.inl rfl, own, rfl, h.symm⟩
    | directory =>
      cases hOwn : t.statOwn p with
      | error fault => simp [entry, hOwn, bind, Except.bind] at h
      | ok own =>
        simp only [entry, hOwn, bind, Except.bind, pure, Except.pure, Except.ok.injEq,
          Option.some.injEq] at h
        exact .inl ⟨.inr rfl, own, rfl, h.symm⟩
    | link =>
      cases hLinks : t.linksToFile p with
      | error fault => simp [entry, hLinks, bind, Except.bind] at h
      | ok isFile =>
        cases isFile with
        | false => simp [entry, hLinks, bind, Except.bind, pure, Except.pure] at h
        | true =>
          obtain ⟨file, hStat, hFile⟩ := linksToFile_eq_true_iff.mp hLinks
          simp only [entry, hLinks, hStat, bind, Except.bind, pure, Except.pure, if_true,
            Except.ok.injEq, Option.some.injEq] at h
          exact .inr ⟨rfl, file, hStat, hFile, h.symm⟩
    | fifo => simp [entry] at h
    | socket => simp [entry] at h
    | device => simp [entry] at h
  · rintro (⟨rfl | rfl, own, hOwn, rfl⟩ | ⟨rfl, file, hStat, hFile, rfl⟩)
    · rw [entry, hOwn]
      rfl
    · rw [entry, hOwn]
      rfl
    · have hLinks := linksToFile_eq_true_iff.mpr ⟨file, hStat, hFile⟩
      simp [entry, hLinks, hStat, bind, Except.bind, pure, Except.pure]

/-- The entries of a directory that a scan looks at, by name, each with its attributes or the fault
met on the way. -/
def entries (t : Tree) (p : Path) : Except Fault (List (Path × Except Fault Attributes)) := do
  let (place, names) ← t.list p
  return names.filterMap fun name =>
    (t.node? (place ++ [name])).bind fun node =>
      match t.entry (p.child name) node.kind with
      | .ok none => none
      | .ok (some a) => some (p.child name, .ok a)
      | .error fault => some (p.child name, .error fault)

end Tree

end MediaIndex.Disk
