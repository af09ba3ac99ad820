import MediaIndex.Catalog.Archive
import MediaIndex.Proofs.Preparations

/-!
# Opening catalog files

Opening a catalog makes the directories above its file, looks for what stands at its path, makes what
the file lacks, and only then compares versions. So a file of a newer version is refused, but what it
lacks for the table of files has been made by then, as far as it can be made. What fails before the
file is looked into, and a path that no call takes, is not told as a failure of the catalog.
-/

namespace MediaIndex.Catalog

open Disk (Fault Tree)

/-- The failure is told as one of the catalog. -/
def OpenFailure.isRefusal : OpenFailure → Bool
  | .disk _ | .zeroCharacter => false
  | _ => true

namespace CatalogFile

variable {f : CatalogFile}

/-- What opening the file comes to once it is looked into. -/
def refusal? (f : CatalogFile) (p : Path) : Option OpenFailure :=
  match f.prepare with
  | (_, some fault) => some (.cannotPrepare p fault)
  | (f, none) => if currentVersion < f.version then some (.tooNew p f.version) else none

/-- How a file of a newer version is refused: for its version, unless it cannot be given all that it
lacks. -/
def newerRefusal (f : CatalogFile) (p : Path) : OpenFailure :=
  match f.furnishingFault? with
  | some fault => .cannotPrepare p fault
  | none => .tooNew p f.version

theorem isRefusal_of_refusal? {p : Path} {failure : OpenFailure}
    (h : f.refusal? p = some failure) : failure.isRefusal = true := by
  unfold refusal? at h
  split at h
  · cases h
    rfl
  · split at h <;> cases h
    rfl

section Newer

variable {first : Int} {rest : List Int} (stated : f.versions = some (first :: rest))
  (newer : currentVersion < f.version) (p : Path)

include stated newer

theorem refusal?_of_newer : f.refusal? p ≠ none := by
  have hVersion := version_prepare stated
  cases hPrepare : f.prepare with
  | mk g trouble =>
    rw [hPrepare] at hVersion
    cases trouble with
    | some fault => simp [refusal?, hPrepare]
    | none => simp [refusal?, hPrepare, hVersion, newer]

theorem refusal?_of_unlocked (hLocked : f.locked = false) :
    f.refusal? p = some (f.newerRefusal p) := by
  have hVersion := version_prepare stated
  have hPrepare := prepare_of_unlocked stated hLocked
  rw [hPrepare] at hVersion
  rw [refusal?, newerRefusal, hPrepare]
  cases f.furnishingFault? with
  | some fault => rfl
  | none => simp only [hVersion, if_pos newer]

end Newer

end CatalogFile

/-! ## Opening the file at a path -/

/-- The path is one that calls take, the directories above the file stand or can be made, and what
stands at it can be seen. -/
def Answers (t : Tree) (a : Archive) (p : Path) : Prop :=
  p.hasZero = false ∧ ∃ made seen, t.ensureDirectories p.parent = (made, none) ∧
    obstruction made a p = .ok seen

/-- Nothing at the path keeps the catalog there from being looked into. -/
def Reaches (t : Tree) (a : Archive) (p : Path) : Prop :=
  p.hasZero = false ∧ ∃ made, t.ensureDirectories p.parent = (made, none) ∧
    obstruction made a p = .ok .none

theorem Reaches.answers {t : Tree} {a : Archive} {p : Path} (h : Reaches t a p) :
    Answers t a p := by
  obtain ⟨hZero, made, hMade, hSeen⟩ := h
  exact ⟨hZero, made, .none, hMade, hSeen⟩

/-- How far an attempt to open the catalog at a path comes. -/
inductive Attempt (t : Tree) (a : Archive) (p : Path) (opening : Opening) : Prop
  | strayed (other : OpenFailure) (untold : other.isRefusal = false)
    (unanswered : ¬ Answers t a p) (archive : opening.archive = a)
    (failure : opening.failure = some other)
  | barred (refusal : OpenFailure) (told : refusal.isRefusal = true) (answered : Answers t a p)
    (unreached : ¬ Reaches t a p) (archive : opening.archive = a)
    (failure : opening.failure = some refusal)
  | lookedInto (reached : Reaches t a p)
    (archive : opening.archive = a.setFile p (a.found p).prepare.1)
    (failure : opening.failure = (a.found p).refusal? p)

section Attempts

variable {t made : Tree} {a : Archive} {p : Path}

theorem attempt_of_zero (hZero : p.hasZero = true) : Attempt t a p (openCatalog t a p) := by
  have hUnanswered : ¬ Answers t a p := fun h => Bool.false_ne_true (h.1.symm.trans hZero)
  unfold openCatalog
  split
  · exact .strayed .zeroCharacter rfl hUnanswered rfl rfl
  · split
    · exact .strayed (.disk _) rfl hUnanswered rfl rfl
    · exact .strayed .zeroCharacter rfl hUnanswered rfl rfl

/-- A file that can be looked into is prepared, and its version tells whether it is refused. -/
theorem openCatalog_of_reached (hZero : p.hasZero = false)
    (hDirectories : t.ensureDirectories p.parent = (made, none))
    (hSeen : obstruction made a p = .ok .none) :
    (openCatalog t a p).archive = a.setFile p (a.found p).prepare.1 ∧
      (openCatalog t a p).failure = (a.found p).refusal? p := by
  simp only [openCatalog, Path.hasZero_parent hZero, hDirectories, hZero, Bool.false_eq_true,
    if_false, hSeen, CatalogFile.refusal?]
  cases hPrepare : (a.found p).prepare with
  | mk f trouble =>
    cases trouble with
    | some fault => exact ⟨rfl, rfl⟩
    | none =>
      obtain ⟨count, hCount⟩ : ∃ count, f.count = .ok count := by
        have h := CatalogFile.count_of_prepare (congrArg Prod.snd hPrepare)
        rwa [hPrepare] at h
      by_cases hNewer : currentVersion < f.version
      · simp only [if_pos hNewer, and_self]
      · simp only [if_neg hNewer, hCount, and_self]

theorem attempt_of_directories (hZero : p.hasZero = false)
    (hDirectories : t.ensureDirectories p.parent = (made, none)) :
    Attempt t a p (openCatalog t a p) := by
  have hSame : ∀ {other : Tree}, t.ensureDirectories p.parent = (other, none) → other = made :=
    fun h => (Prod.mk.inj (hDirectories.symm.trans h)).1.symm
  cases hSeen : obstruction made a p with
  | error fault =>
    have hUnanswered : ¬ Answers t a p := by
      rintro ⟨-, _, seen, h, h'⟩
      obtain rfl := hSame h
      cases hSeen.symm.trans h'
    simp only [openCatalog, Path.hasZero_parent hZero, hDirectories, hZero, Bool.false_eq_true,
      if_false, hSeen]
    exact .strayed (.disk fault) rfl hUnanswered rfl rfl
  | ok seen =>
    have hAnswered : Answers t a p := ⟨hZero, made, seen, hDirectories, hSeen⟩
    have hBarred (h : seen ≠ .none) : ¬ Reaches t a p := by
      rintro ⟨-, _, h', h''⟩
      obtain rfl := hSame h'
      exact h (Except.ok.inj (hSeen.symm.trans h''))
    cases seen with
    | unopened fault =>
      simp only [openCatalog, Path.hasZero_parent hZero, hDirectories, hZero, Bool.false_eq_true,
        if_false, hSeen]
      exact .barred (.cannotOpen p fault) rfl hAnswered (hBarred nofun) rfl rfl
    | unprepared fault =>
      simp only [openCatalog, Path.hasZero_parent hZero, hDirectories, hZero, Bool.false_eq_true,
        if_false, hSeen]
      exact .barred (.cannotPrepare p fault) rfl hAnswered (hBarred nofun) rfl rfl
    | none =>
      obtain ⟨hArchive, hFailure⟩ := openCatalog_of_reached hZero hDirectories hSeen
      exact .lookedInto ⟨hZero, made, hDirectories, hSeen⟩ hArchive hFailure

theorem attempt_openCatalog (t : Tree) (a : Archive) (p : Path) :
    Attempt t a p (openCatalog t a p) := by
  cases hZero : p.hasZero with
  | true => exact attempt_of_zero hZero
  | false =>
    cases hDirectories : t.ensureDirectories p.parent with
    | mk made stopped =>
      cases stopped with
      | none => exact attempt_of_directories hZero hDirectories
      | some fault =>
        have hUnanswered : ¬ Answers t a p := by simp [Answers, hDirectories]
        simp only [openCatalog, Path.hasZero_parent hZero, hDirectories, Bool.false_eq_true,
          if_false]
        exact .strayed (.disk fault) rfl hUnanswered rfl rfl

/-- Opening fails otherwise than as a catalog exactly if the file is not even seen. -/
theorem openCatalog_strays_iff :
    (∃ failure, (openCatalog t a p).failure = some failure ∧ failure.isRefusal = false) ↔
      ¬ Answers t a p := by
  cases attempt_openCatalog t a p with
  | strayed other untold unanswered archive failure =>
    exact iff_of_true ⟨other, failure, untold⟩ unanswered
  | barred refusal told answered unreached archive failure =>
    refine iff_of_false ?_ (not_not_intro answered)
    rintro ⟨other, h, untold⟩
    obtain rfl := Option.some.inj (failure.symm.trans h)
    exact Bool.false_ne_true (untold.symm.trans told)
  | lookedInto reached archive failure =>
    refine iff_of_false ?_ (not_not_intro reached.answers)
    rintro ⟨other, h, untold⟩
    have told := CatalogFile.isRefusal_of_refusal? (failure.symm.trans h)
    exact Bool.false_ne_true (untold.symm.trans told)

/-- A catalog is opened exactly if its file is reached, can be prepared and is not newer. -/
theorem openCatalog_failure_none_iff :
    (openCatalog t a p).failure = none ↔ Reaches t a p ∧ (a.found p).refusal? p = none := by
  cases attempt_openCatalog t a p with
  | strayed other untold unanswered archive failure =>
    exact iff_of_false (by simp [failure]) fun h => unanswered h.1.answers
  | barred refusal told answered unreached archive failure =>
    exact iff_of_false (by simp [failure]) fun h => unreached h.1
  | lookedInto reached archive failure =>
    rw [failure]
    exact (and_iff_right reached).symm

end Attempts

/-- A path at which a catalog with a table of versions is found stands for a file. -/
theorem Archive.found_eq_file {a : Archive} {p : Path} {versions : List Int}
    (stated : (a.found p).versions = some versions) : a.found p = a.file p := by
  unfold found at stated ⊢
  split at stated
  · cases stated
  · next hFile => rw [if_neg hFile]

theorem Archive.file_setFile (a : Archive) (p : Path) (f : CatalogFile) :
    (a.setFile p f).file p = f := by
  simp [file, setFile]

theorem Archive.lookup_filter_of_ne (a : Archive) {p q : Path} (h : q ≠ p) :
    List.lookup q (a.filter fun entry => entry.1 ≠ p) = List.lookup q a := by
  induction a with
  | nil => rfl
  | cons entry a ih =>
    obtain ⟨r, f⟩ := entry
    by_cases hr : r = p
    · subst hr
      rw [List.filter_cons_of_neg (by simp), ih, List.lookup_cons, beq_false_of_ne h]
    · rw [List.filter_cons_of_pos (by simpa using hr), List.lookup_cons, List.lookup_cons, ih]

theorem Archive.file_setFile_of_ne (a : Archive) {p q : Path} (h : key q ≠ key p)
    (f : CatalogFile) : (a.setFile p f).file q = a.file q := by
  rw [file, setFile, List.lookup_cons, beq_false_of_ne h]
  exact congrArg (·.getD .blank) (a.lookup_filter_of_ne h)

/-- An attempt to open a catalog changes no other one. -/
theorem openCatalog_file_of_ne {t : Tree} {a : Archive} {p q : Path}
    (h : key q ≠ key p) : (openCatalog t a p).archive.file q = a.file q := by
  cases attempt_openCatalog t a p with
  | strayed other untold unanswered archive failure => rw [archive]
  | barred refusal told answered unreached archive failure => rw [archive]
  | lookedInto reached archive failure => rw [archive, a.file_setFile_of_ne h]

section Newer

variable {t : Tree} {a : Archive} {p : Path} {versions : List Int} {v : Int}

theorem openCatalog_newer_failure (stated : (a.found p).versions = some versions)
    (listed : v ∈ versions) (newer : currentVersion < v) :
    (openCatalog t a p).failure ≠ none := by
  have hNewer := newer.trans_le (CatalogFile.le_version stated listed)
  obtain ⟨first, rest, rfl⟩ := List.exists_cons_of_ne_nil (List.ne_nil_of_mem listed)
  rw [Ne, openCatalog_failure_none_iff]
  exact fun opened => CatalogFile.refusal?_of_newer stated hNewer p opened.2

theorem openCatalog_keeps_iff (stated : (a.found p).versions = some versions)
    (listed : v ∈ versions) :
    (a.found p).Keeps ((openCatalog t a p).archive.file p) ↔
      ¬ (Reaches t a p ∧ (a.found p).Lacks) := by
  obtain ⟨first, rest, rfl⟩ := List.exists_cons_of_ne_nil (List.ne_nil_of_mem listed)
  cases attempt_openCatalog t a p with
  | strayed other untold unanswered archive failure =>
    rw [archive, ← Archive.found_eq_file stated]
    exact iff_of_true (.refl _) fun lacking => unanswered lacking.1.answers
  | barred refusal told answered unreached archive failure =>
    rw [archive, ← Archive.found_eq_file stated]
    exact iff_of_true (.refl _) fun lacking => unreached lacking.1
  | lookedInto reached archive failure =>
    rw [archive, a.file_setFile, and_iff_right reached]
    exact CatalogFile.keeps_prepare_iff stated

theorem openCatalog_furnishes (stated : (a.found p).versions = some versions)
    (listed : v ∈ versions) (newer : currentVersion < v) (reached : Reaches t a p)
    (unlocked : (a.found p).locked = false) :
    (openCatalog t a p).failure = some ((a.found p).newerRefusal p) ∧
    (a.found p).furnished.Keeps ((openCatalog t a p).archive.file p) := by
  have hNewer := newer.trans_le (CatalogFile.le_version stated listed)
  obtain ⟨first, rest, rfl⟩ := List.exists_cons_of_ne_nil (List.ne_nil_of_mem listed)
  cases attempt_openCatalog t a p with
  | strayed other untold unanswered archive failure => exact absurd reached.answers unanswered
  | barred refusal told answered unreached archive failure => exact absurd reached unreached
  | lookedInto reached archive failure =>
    rw [archive, a.file_setFile, failure, CatalogFile.prepare_of_unlocked stated unlocked]
    exact ⟨CatalogFile.refusal?_of_unlocked stated hNewer p unlocked, ⟨rfl, rfl, rfl, rfl⟩⟩

end Newer

namespace Handle

variable (h : Handle) (t : Tree) (a : Archive)

theorem connect_of_closed (closed : h.isOpen = false) : h.connect t a =
    ({ h with isOpen := (openCatalog t a h.path).failure.isNone, memory := .fresh },
      openCatalog t a h.path) := by
  rw [connect, if_neg (by simp [closed])]

/-- A handle is open after connecting exactly if nothing failed. -/
theorem connect_isOpen : (h.connect t a).1.isOpen = (h.connect t a).2.failure.isNone := by
  cases closed : h.isOpen with
  | true => simp [connect, closed]
  | false => rw [h.connect_of_closed t a closed]

theorem connect_strays_iff :
    (∃ failure, (h.connect t a).2.failure = some failure ∧ failure.isRefusal = false) ↔
      h.isOpen = false ∧ ¬ Answers t a h.path := by
  cases closed : h.isOpen with
  | true => simp [connect, closed]
  | false =>
    rw [h.connect_of_closed t a closed, openCatalog_strays_iff]
    exact (and_iff_right rfl).symm

/-- A catalog that states a newer version is refused, and no connection to it is kept. Its file is
left as it was exactly if it cannot be looked into or lacks nothing that can be made before the
versions are compared. Where nothing keeps it from that, it has been given the table of files and its
indexes by then, up to the first of them that cannot be made, and is refused for that one or else for
its version. -/
theorem newer_kept_iff (versions : List Int) (v : Int) (closed : h.isOpen = false)
    (stated : (a.found h.path).versions = some versions) (listed : v ∈ versions)
    (newer : currentVersion < v) :
    (h.connect t a).1.isOpen = false ∧
    (h.connect t a).2.failure ≠ none ∧
    ((∃ failure, (h.connect t a).2.failure = some failure ∧ failure.isRefusal = false) ↔
      ¬ Answers t a h.path) ∧
    ((a.found h.path).Keeps ((h.connect t a).2.archive.file h.path) ↔
      ¬ (Reaches t a h.path ∧ (a.found h.path).Lacks)) ∧
    (Reaches t a h.path → (a.found h.path).locked = false →
      (h.connect t a).2.failure = some ((a.found h.path).newerRefusal h.path) ∧
      (a.found h.path).furnished.Keeps ((h.connect t a).2.archive.file h.path)) ∧
    ∀ q, key q ≠ key h.path → (h.connect t a).2.archive.file q = a.file q := by
  have hFailed : (openCatalog t a h.path).failure ≠ none :=
    openCatalog_newer_failure stated listed newer
  have hClosed : (openCatalog t a h.path).failure.isNone = false :=
    Option.isNone_eq_false_iff.2 (Option.isSome_iff_ne_none.2 hFailed)
  rw [h.connect_of_closed t a closed]
  exact ⟨hClosed, hFailed, openCatalog_strays_iff, openCatalog_keeps_iff stated listed,
    openCatalog_furnishes stated listed newer, fun q hq => openCatalog_file_of_ne hq⟩

end Handle

/-! ## Newer catalogs that keep their records elsewhere -/

def newerPath : Path := ⟨.root, ["c.db"]⟩

def newerHandle : Handle := .closed newerPath Handle.usualPatience

/-- The catalog of a version that has no table of files. -/
def newerFile : CatalogFile := ⟨some [2], .absent, [], ["media"], true, false, .none⟩

/-- The catalog of a version whose table of files has no column for media types. -/
def narrowFile : CatalogFile :=
  ⟨some [2], .foreign ["id", "volume_name", "path"] 3, [], [], true, false, .none⟩

def newerArchive (f : CatalogFile) : Archive := [(newerPath, f)]

theorem found_newerArchive (f : CatalogFile) : (newerArchive f).found newerPath = f := rfl

theorem newerPath_missing :
    Tree.empty.ownPlace? ["c.db"] = .error ⟨.reason .notFound, [], ["c.db"]⟩ := by
  rw [Tree.ownPlace?_singleton]
  rfl

theorem newerPath_settled : settle Tree.empty linksOnTheWay [] ["c.db"] = .ok ["c.db"] := by
  have hStat : Tree.empty.statOwn newerPath = .error (.failed .notFound newerPath.text) := by
    rw [Tree.statOwn, Tree.locateOwn, newerPath, newerPath_missing]
    rfl
  rw [settle_of_notFound (by decide) (by decide) hStat, settle]
  rfl

theorem newerPath_clear (f : CatalogFile) :
    siteObstruction Tree.empty (some f) ["c.db"] = .ok .none := by
  rw [siteObstruction, if_neg (by decide), newerPath_missing]
  rfl

theorem newerPath_directories :
    Tree.empty.ensureDirectories newerPath.parent = (.empty, none) := by
  have hStat : Tree.empty.stat newerPath.parent = .ok ([], Tree.empty.root) := by
    change Tree.found _ _ (Tree.empty.place? []) >>= _ = _
    rw [Tree.place?_nil]
    rfl
  have hMake : Tree.empty.makeDirectory newerPath.parent =
      .error (.failed .alreadyExists newerPath.parent.text) := rfl
  rw [Tree.ensureDirectories, hMake]
  simp only [Tree.settleDirectory, Tree.isDirectory?_of_stat hStat]
  rfl

theorem newerPath_reached {f : CatalogFile} (h : f.obstruction = .none) :
    Reaches .empty (newerArchive f) newerPath := by
  have hFile : isInMemory newerPath = false := by decide
  have hKnown : (newerArchive f).lookup (key newerPath) = some f := rfl
  have hTree : Tree.empty.forMakers = .empty := rfl
  have hNames : newerPath.names = ["c.db"] := rfl
  refine ⟨by decide, .empty, newerPath_directories, ?_⟩
  simp only [obstruction, hFile, Bool.false_eq_true, if_false, hTree, hNames, newerPath_settled,
    hKnown, newerPath_clear, found_newerArchive, h]

/-- The one catalog is refused for its version and has a table of files by then, the other for the
column that it lacks and has the first index by then. -/
theorem newer_kept_iff_elsewhere :
    (newerHandle.isOpen = false ∧
      ((newerArchive newerFile).found newerPath).versions = some [2] ∧
      ((newerArchive narrowFile).found newerPath).versions = some [2] ∧
      (2 : Int) ∈ [(2 : Int)] ∧ currentVersion < 2) ∧
    ((newerHandle.connect .empty (newerArchive newerFile)).2.failure =
        some (.tooNew newerPath 2) ∧
      ¬ newerFile.Keeps
        ((newerHandle.connect .empty (newerArchive newerFile)).2.archive.file newerPath)) ∧
    (newerHandle.connect .empty (newerArchive narrowFile)).2.failure =
        some (.cannotPrepare newerPath (.noColumn "media_type")) ∧
      ((newerHandle.connect .empty (newerArchive narrowFile)).2.archive.file newerPath).indexes =
        ["idx_files_volume_path"] := by
  have hFile := found_newerArchive newerFile
  have hNarrow := found_newerArchive narrowFile
  have hStated := congrArg CatalogFile.versions hFile
  have hStatedNarrow := congrArg CatalogFile.versions hNarrow
  obtain ⟨-, -, -, hKept, hRefused, -⟩ := newerHandle.newer_kept_iff .empty
    (newerArchive newerFile) [2] 2 rfl hStated (by decide) (by decide)
  obtain ⟨-, -, -, -, hNarrowRefused, -⟩ := newerHandle.newer_kept_iff .empty
    (newerArchive narrowFile) [2] 2 rfl hStatedNarrow (by decide) (by decide)
  have hPath : newerHandle.path = newerPath := rfl
  rw [hPath, hFile] at hKept hRefused
  rw [hPath, hNarrow] at hNarrowRefused
  obtain ⟨hFailure, -⟩ := hRefused (newerPath_reached rfl) rfl
  obtain ⟨hNarrowFailure, hFurnished⟩ := hNarrowRefused (newerPath_reached rfl) rfl
  refine ⟨⟨rfl, hStated, hStatedNarrow, by decide, by decide⟩, ⟨?_, ?_⟩, ?_, ?_⟩
  · exact hFailure.trans rfl
  · exact fun hKeeps => hKept.1 hKeeps ⟨newerPath_reached rfl, rfl, .inl ⟨rfl, by decide⟩⟩
  · exact hNarrowFailure.trans rfl
  · exact hFurnished.indexes.trans rfl

end MediaIndex.Catalog
