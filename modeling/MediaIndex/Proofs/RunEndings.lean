import MediaIndex.CommandLine.Run
import MediaIndex.Proofs.CatalogOpenings
import MediaIndex.Proofs.IntakeColumns

/-!
# How a run of the program ends

A run starts if its log file can be opened and its roots can be brought into canonical form. A run
that does not start leaves the program with what stopped it. One that starts ends with the code 0
exactly if it does all that it was asked for: the catalog is opened, and either the report is
written in full, or each root is scanned in the world that the roots before it left and the counts
are told if they are wanted. Whatever fails after the start, the code is 1.
-/

namespace MediaIndex.CommandLine

open Catalog (Handle Reaches Answers openCatalog)
open Disk (Tree)

/-! ## What a run needs to start and to be done -/

/-- The log file can be opened if there is to be one, and the directories for it have been made. -/
def LogOpens (o : Options) (t made : Tree) : Prop :=
  match o.logFile.value? with
  | none => made = t
  | some path => path.hasZero = false ∧ t.ensureDirectories path.parent = (made, none) ∧
      made.openToWrite path.absolute.text = .ok ()

/-- The path is the canonical form of the root, and it leads somewhere or nowhere, not in circles. -/
structure Resolves (t : Tree) (root path : Path) : Prop where
  taken : root.hasZero = false
  canonical : t.canonical root = .ok (some path)
  ends : ∀ text, t.stat path ≠ .error (.failed .tooManyLinks text)
  answers : t.stat path ≠ .error .interrupted

structure Starts (o : Options) (t made : Tree) (roots : List Path) : Prop where
  log : LogOpens o t made
  roots : List.Forall₂ (Resolves made) o.roots roots

structure Opened (o : Options) (w start : World) (db : Path) : Prop where
  named : o.db.value? = some db
  reached : Reaches w.tree w.archive db
  accepted : (w.archive.found db).refusal? db = none
  world : (openWork w db).world = start

inductive RootScanned (db root : Path) (w after : World) : Prop
  | file (id : Option Int) (notes : List Note) (single : w.tree.isFile? root = .ok true)
    (scanned : converse w db (Reconcile.scanFile w.tree false root) = (.ok id, notes, after))
  | directory (notes : List Note) (several : w.tree.isFile? root = .ok false)
    (scanned : converse w db (Reconcile.scanDirectory w.tree false root) = (.ok (), notes, after))

/-- The roots are scanned one after the other, each in the world that the last one left. -/
inductive RootsScanned (db : Path) : List Path → World → World → Prop
  | none (w : World) : RootsScanned db [] w w
  | next {root : Path} {roots : List Path} {w between after : World}
    (first : RootScanned db root w between) (rest : RootsScanned db roots between after) :
    RootsScanned db (root :: roots) w after

/-- The report file can be opened, and the report gets to its end. -/
def Reported (db : Path) (roots : List Path) (fileName : String) (w : World) : Prop :=
  Text.hasZero fileName = false ∧ w.tree.openToWrite fileName = .ok () ∧
    (Report.inventory w.tree ((w.archive.file db).store .fresh w.clock) roots).1.failure = none

/-- All roots are scanned, and then the records can be counted if that is wanted. -/
def Scanned (o : Options) (db : Path) (roots : List Path) (w : World) : Prop :=
  ∃ after, RootsScanned db roots w after ∧ (o.stats = true → ∃ counts,
    (Report.summary ((after.archive.file db).store .fresh after.clock)).1 = .ok counts)

/-- The table of files, if the catalog has one already, is that of a catalog. What a store makes of
one of another shape is not told by its columns alone. -/
def OwnTable (o : Options) (w : World) : Prop :=
  ∀ db, o.db.value? = some db → ∀ columns rows,
    (w.archive.found db).files ≠ .foreign columns rows

/-- All that the program is asked for is done. -/
inductive Succeeds (o : Options) (roots : List Path) (w : World) : Prop
  | reported (db : Path) (start : World) (fileName : String) (opened : Opened o w start db)
    (asked : o.reportFile? = some fileName) (written : Reported db roots fileName start)
  | scanned (db : Path) (start : World) (opened : Opened o w start db)
    (asked : o.reportFile? = none) (done : Scanned o db roots start)

/-! ## Starting -/

variable {o : Options} {t made : Tree} {roots : List Path}

theorem canonicalRoot_eq_ok_iff {root path : Path} :
    canonicalRoot t root = .ok path ↔ Resolves t root path := by
  cases hZero : root.hasZero with
  | true =>
    rw [canonicalRoot, if_pos hZero]
    exact iff_of_false nofun fun h => Bool.false_ne_true (h.taken.symm.trans hZero)
  | false =>
  rw [canonicalRoot, if_neg (by simp [hZero]), bind_eq_ok_iff]
  constructor
  · rintro ⟨found, hFound, h⟩
    cases found with
    | none => cases h
    | some found =>
      have hCanonical := mapError_eq_ok_iff.1 hFound
      dsimp only at h
      split at h
      · cases h
      · cases h
      · next hLoops hInterrupted =>
        cases h
        exact ⟨hZero, hCanonical, hLoops, hInterrupted⟩
  · intro h
    refine ⟨some path, mapError_eq_ok_iff.2 h.canonical, ?_⟩
    dsimp only
    split
    · next text hStat => exact absurd hStat (h.ends text)
    · next hStat => exact absurd hStat h.answers
    · rfl

theorem mapM_canonicalRoot_iff :
    o.roots.mapM (canonicalRoot t) = .ok roots ↔ List.Forall₂ (Resolves t) o.roots roots := by
  simp only [mapM_eq_ok_iff, canonicalRoot_eq_ok_iff]

theorem openLog_of_zero {path : Path} (hZero : path.hasZero = true) :
    (openLog t path).2 ≠ none := by
  unfold openLog
  split
  · simp
  · split <;> simp

theorem openLog_of_taken {path : Path} (hZero : path.hasZero = false) :
    openLog t path = (made, none) ↔
      t.ensureDirectories path.parent = (made, none) ∧
        made.openToWrite path.absolute.text = .ok () := by
  simp only [openLog, Path.hasZero_parent hZero, hZero, Bool.false_eq_true, if_false]
  cases hDirectories : t.ensureDirectories path.parent with
  | mk between stopped =>
    cases stopped with
    | some fault => simp
    | none =>
      cases hOpen : between.openToWrite path.absolute.text with
      | error fault =>
        refine iff_of_false (by simp [hOpen]) ?_
        rintro ⟨h, h'⟩
        cases h
        cases hOpen.symm.trans h'
      | ok _ =>
        simp only [hOpen, Prod.mk.injEq, and_true]
        constructor
        · rintro rfl
          exact ⟨rfl, hOpen⟩
        · exact fun h => h.1

theorem openLog_eq_iff {path : Path} : openLog t path = (made, none) ↔ path.hasZero = false ∧
    t.ensureDirectories path.parent = (made, none) ∧
      made.openToWrite path.absolute.text = .ok () := by
  cases hZero : path.hasZero with
  | true =>
    refine iff_of_false (fun h => openLog_of_zero hZero (congrArg Prod.snd h)) ?_
    exact fun h => Bool.false_ne_true h.1.symm
  | false => rw [openLog_of_taken hZero, and_iff_right rfl]

/-- The tree once the log file is open, and what stopped the run before that. -/
def logged (o : Options) (t : Tree) : Tree × Option Failure :=
  match o.logFile.value? with
  | some path => openLog t path
  | none => (t, none)

theorem logged_eq_iff : logged o t = (made, none) ↔ LogOpens o t made := by
  unfold logged LogOpens
  split
  · next path h => simp only [openLog_eq_iff, h]
  · next h => simp [h, eq_comm]

variable {w : World}

theorem ending_run (o : Options) (w : World) : (run o w).ending =
    match (logged o w.tree).2 with
    | some failure => .left failure
    | none => match o.roots.mapM (canonicalRoot (logged o w.tree).1) with
      | .error failure => .left failure
      | .ok roots => ending (work o roots { w with tree := (logged o w.tree).1 }) := by
  change Outcome.ending (match (logged o w.tree).2 with
    | some failure => ⟨[], .left failure, none, none, _⟩
    | none => match o.roots.mapM (canonicalRoot (logged o w.tree).1) with
      | .error failure => ⟨[], .left failure, o.logFile.value?, none, _⟩
      | .ok roots => ⟨_, ending (work o roots { w with tree := (logged o w.tree).1 }),
        o.logFile.value?, _, _⟩) = _
  cases (logged o w.tree).2 with
  | some failure => rfl
  | none =>
    cases o.roots.mapM (canonicalRoot (logged o w.tree).1) with
    | error failure => rfl
    | ok roots => rfl

theorem run_of_starts (h : Starts o w.tree made roots) :
    (run o w).ending = ending (work o roots { w with tree := made }) := by
  simp only [ending_run, logged_eq_iff.2 h.log, mapM_canonicalRoot_iff.2 h.roots]

theorem run_of_not_starts (h : ¬ ∃ made roots, Starts o w.tree made roots) :
    ∃ failure, (run o w).ending = .left failure := by
  rw [ending_run]
  cases hLogged : logged o w.tree with
  | mk made stopped =>
    cases stopped with
    | some failure => exact ⟨failure, rfl⟩
    | none =>
      cases hRoots : o.roots.mapM (canonicalRoot made) with
      | error failure => exact ⟨failure, rfl⟩
      | ok roots =>
        exact absurd ⟨made, roots, logged_eq_iff.1 hLogged, mapM_canonicalRoot_iff.1 hRoots⟩ h

/-- What a run can leave the program with. -/
inductive Failure.IsEarly : Failure → Prop
  | disk (fault : Disk.Fault) : IsEarly (.disk fault)
  | zeroCharacter : IsEarly .zeroCharacter
  | linkLoop (path : Path) : IsEarly (.linkLoop path)
  | endlessLinks : IsEarly .endlessLinks

theorem canonicalRoot_error {root : Path} {failure : Failure}
    (h : canonicalRoot t root = .error failure) : failure.IsEarly := by
  unfold canonicalRoot at h
  split at h
  · cases h
    exact .zeroCharacter
  cases hCanonical : t.canonical root with
  | error fault =>
    rw [hCanonical] at h
    cases h
    exact .disk fault
  | ok found =>
    rw [hCanonical] at h
    cases found with
    | none =>
      cases h
      exact .endlessLinks
    | some path =>
      simp only [Except.mapError, bind, Except.bind] at h
      split at h <;> cases h
      · exact .linkLoop path
      · exact .disk .interrupted

theorem openLog_error {path : Path} {failure : Failure}
    (h : (openLog t path).2 = some failure) : failure.IsEarly := by
  unfold openLog at h
  split at h
  · cases h
    exact .zeroCharacter
  · split at h
    · cases h
      exact .disk _
    · split at h
      · cases h
        exact .zeroCharacter
      · split at h <;> cases h
        exact .disk _

theorem logged_error {failure : Failure} (h : (logged o t).2 = some failure) :
    failure.IsEarly := by
  unfold logged at h
  split at h
  · exact openLog_error h
  · cases h

theorem isEarly_of_left {failure : Failure} (h : (run o w).ending = .left failure) :
    failure.IsEarly := by
  rw [ending_run] at h
  split at h
  · next hLogged =>
    cases h
    exact logged_error hLogged
  · split at h
    · next hRoots =>
      cases h
      obtain ⟨root, -, hRoot⟩ := exists_error_of_mapM hRoots
      exact canonicalRoot_error hRoot
    · unfold ending at h
      split at h
      · cases h
      · split at h <;> cases h

/-! ## Doing the work -/

variable {db : Path} {work : Work}

theorem andThen_of_going (h : work.failure = none) (next : Work → Work) :
    work.andThen next = next work := by
  simp [Work.andThen, h]

theorem andThen_of_failed (h : work.failure ≠ none) (next : Work → Work) :
    work.andThen next = work := by
  rw [Work.andThen, if_pos (Option.isSome_iff_ne_none.2 h)]

theorem rootScanned_iff {root : Path} {after : World}
    (going : work.failure = none) : RootScanned db root work.world after ↔
      (scanRoot db root work).failure = none ∧ (scanRoot db root work).world = after := by
  unfold scanRoot
  cases hSingle : work.world.tree.isFile? root with
  | error fault =>
    refine iff_of_false ?_ (by simp [Work.fail])
    rintro (⟨id, notes, single, -⟩ | ⟨notes, several, -⟩)
    · cases hSingle.symm.trans single
    · cases hSingle.symm.trans several
  | ok single =>
    cases single with
    | true =>
      cases hScan : converse work.world db (Reconcile.scanFile work.world.tree false root) with
      | mk result rest =>
        obtain ⟨notes, world⟩ := rest
        constructor
        · rintro (⟨id, told, single, scanned⟩ | ⟨told, several, scanned⟩)
          · cases hScan.symm.trans scanned
            exact ⟨going, rfl⟩
          · cases hSingle.symm.trans several
        · rintro ⟨h, rfl⟩
          cases result with
          | error failure => cases h
          | ok id => exact .file id notes hSingle hScan
    | false =>
      cases hScan : converse work.world db
          (Reconcile.scanDirectory work.world.tree false root) with
      | mk result rest =>
        obtain ⟨notes, world⟩ := rest
        constructor
        · rintro (⟨id, told, single, scanned⟩ | ⟨told, several, scanned⟩)
          · cases hSingle.symm.trans single
          · cases hScan.symm.trans scanned
            exact ⟨going, rfl⟩
        · rintro ⟨h, rfl⟩
          cases result with
          | error failure => cases h
          | ok _ => exact .directory notes hSingle hScan

theorem foldl_of_failed (h : work.failure ≠ none) (roots : List Path) :
    roots.foldl (fun work root => work.andThen (scanRoot db root)) work = work := by
  induction roots with
  | nil => rfl
  | cons root roots ih => rw [List.foldl_cons, andThen_of_failed h, ih]

theorem rootsScanned_iff {after : World} (going : work.failure = none) :
    RootsScanned db roots work.world after ↔
      (roots.foldl (fun work root => work.andThen (scanRoot db root)) work).failure = none ∧
      (roots.foldl (fun work root => work.andThen (scanRoot db root)) work).world = after := by
  induction roots generalizing work with
  | nil =>
    constructor
    · rintro ⟨⟩
      exact ⟨going, rfl⟩
    · rintro ⟨-, rfl⟩
      exact .none _
  | cons root roots ih =>
    rw [List.foldl_cons, andThen_of_going going]
    by_cases hNext : (scanRoot db root work).failure = none
    · rw [← ih hNext]
      constructor
      · rintro (_ | ⟨first, rest⟩)
        obtain ⟨-, rfl⟩ := (rootScanned_iff going).1 first
        exact rest
      · exact .next ((rootScanned_iff going).2 ⟨hNext, rfl⟩)
    · rw [foldl_of_failed hNext]
      refine iff_of_false ?_ fun h => hNext h.1
      rintro (_ | ⟨first, rest⟩)
      exact hNext ((rootScanned_iff going).1 first).1

theorem openWork_failure_none_iff : (openWork w db).failure = none ↔
    Reaches w.tree w.archive db ∧ (w.archive.found db).refusal? db = none := by
  rw [← Catalog.openCatalog_failure_none_iff]
  exact Option.map_eq_none_iff

theorem tell_failure (counts : List (String × Nat)) (work : Work) :
    (counts.foldl (fun work count =>
      work.tell (.info ("  " ++ count.1 ++ ": " ++ Nat.repr count.2))) work).failure =
      work.failure := by
  induction counts generalizing work with
  | nil => rfl
  | cons count counts ih => exact ih _

theorem tellCounts_failure_none_iff (going : work.failure = none) :
    (tellCounts db work).failure = none ↔ ∃ counts, (Report.summary
      ((work.world.archive.file db).store .fresh work.world.clock)).1 = .ok counts := by
  unfold tellCounts
  split
  · next failure h => simp [Work.fail, h]
  · next counts h => simp [tell_failure, going, h]

theorem scanRoots_failure_none_iff (going : work.failure = none) :
    (scanRoots o db roots work).failure = none ↔ Scanned o db roots work.world := by
  unfold scanRoots Scanned
  simp only [rootsScanned_iff going]
  generalize roots.foldl (fun work root => work.andThen (scanRoot db root)) work = scanned
  by_cases hScanned : scanned.failure = none
  · by_cases hStats : o.stats = true
    · simp [hStats, andThen_of_going hScanned, tellCounts_failure_none_iff hScanned, hScanned]
    · simp [hStats, hScanned]
  · have hStays : (if o.stats = true then scanned.andThen (tellCounts db) else scanned) =
        scanned := by
      rw [andThen_of_failed hScanned, ite_self]
    rw [hStays]
    exact iff_of_false hScanned fun ⟨_, h, _⟩ => hScanned h.1

theorem useCatalog_of_report {fileName : String} (asked : o.reportFile? = some fileName)
    (going : work.failure = none) :
    (useCatalog o db roots work).failure = none ↔ Reported db roots fileName work.world := by
  unfold Reported
  simp only [useCatalog, asked, writeReport, Work.tell]
  cases Text.hasZero fileName with
  | true => simp [Work.fail]
  | false =>
  simp only [Bool.false_eq_true, if_false, true_and]
  cases work.world.tree.openToWrite fileName with
  | error fault => simp [Work.fail]
  | ok _ =>
    cases (Report.inventory work.world.tree
        ((work.world.archive.file db).store .fresh work.world.clock) roots).1.failure with
    | some failure => simp [Work.fail]
    | none => simp [going]

theorem useCatalog_of_scan (asked : o.reportFile? = none) (going : work.failure = none) :
    (useCatalog o db roots work).failure = none ↔ Scanned o db roots work.world := by
  rw [← scanRoots_failure_none_iff going]
  simp only [useCatalog, asked]
  by_cases h : (scanRoots o db roots work).failure = none
  · simp only [andThen_of_going h, Work.tell]
  · simp only [andThen_of_failed h]

theorem Opened.of_failure_none (named : o.db.value? = some db)
    (h : (openWork w db).failure = none) : Opened o w (openWork w db).world db :=
  ⟨named, (openWork_failure_none_iff.1 h).1, (openWork_failure_none_iff.1 h).2, rfl⟩

/-- A run does its work without a failure exactly if all it is asked for is done. -/
theorem work_failure_none_iff (o : Options) (roots : List Path) (w : World) :
    (CommandLine.work o roots w).failure = none ↔ Succeeds o roots w := by
  unfold CommandLine.work
  constructor
  · intro h
    cases named : o.db.value? with
    | none =>
      rw [named] at h
      cases h
    | some db =>
      simp only [named] at h
      by_cases hOpened : (openWork w db).failure = none
      · have opened := Opened.of_failure_none named hOpened
        rw [andThen_of_going hOpened] at h
        cases asked : o.reportFile? with
        | some fileName =>
          exact .reported db _ fileName opened asked ((useCatalog_of_report asked hOpened).1 h)
        | none => exact .scanned db _ opened asked ((useCatalog_of_scan asked hOpened).1 h)
      · rw [andThen_of_failed hOpened] at h
        exact absurd h hOpened
  · intro h
    cases h with
    | reported db start fileName opened asked written =>
      have hOpened := openWork_failure_none_iff.2 ⟨opened.reached, opened.accepted⟩
      simp only [opened.named, andThen_of_going hOpened]
      exact (useCatalog_of_report asked hOpened).2 (opened.world ▸ written)
    | scanned db start opened asked done =>
      have hOpened := openWork_failure_none_iff.2 ⟨opened.reached, opened.accepted⟩
      simp only [opened.named, andThen_of_going hOpened]
      exact (useCatalog_of_scan asked hOpened).2 (opened.world ▸ done)

theorem exitCode_ending (work : Work) :
    (ending work).exitCode? = if work.failure = none then some 0 else some 1 := by
  unfold ending
  cases work.failure with
  | none => rfl
  | some failure =>
    rw [if_neg (Option.some_ne_none failure)]
    change Ending.exitCode? (if failure.isInterrupt then .cancelled else .failed failure) = some 1
    cases failure.isInterrupt <;> rfl

section Started

variable (h : Starts o w.tree made roots)
include h

theorem exitCode_of_starts : (run o w).ending.exitCode? =
    if (CommandLine.work o roots { w with tree := made }).failure = none then some 0
    else some 1 := by
  rw [run_of_starts h, exitCode_ending]

theorem exitCode_zero_iff :
    (run o w).ending.exitCode? = some 0 ↔ Succeeds o roots { w with tree := made } := by
  rw [exitCode_of_starts h, ← work_failure_none_iff]
  split <;> simp [*]

theorem exitCode_one_iff :
    (run o w).ending.exitCode? = some 1 ↔ ¬ Succeeds o roots { w with tree := made } := by
  rw [exitCode_of_starts h, ← work_failure_none_iff]
  split <;> simp [*]

end Started

theorem exitCode_zero_or_one {code : Nat} (h : (run o w).ending.exitCode? = some code) :
    code = 0 ∨ code = 1 := by
  cases hEnding : (run o w).ending <;> rw [hEnding] at h <;> cases h <;> simp

theorem exitCode_none_iff :
    (run o w).ending.exitCode? = none ↔ ¬ ∃ made roots, Starts o w.tree made roots := by
  by_cases hStarts : ∃ made roots, Starts o w.tree made roots
  · obtain ⟨made, roots, starts⟩ := hStarts
    refine iff_of_false ?_ (not_not_intro ⟨made, roots, starts⟩)
    rw [exitCode_of_starts starts]
    split <;> simp
  · obtain ⟨failure, hLeft⟩ := run_of_not_starts hStarts
    exact iff_of_true (by rw [hLeft, Ending.exitCode?]) hStarts

theorem starts_of_exitCode {code : Nat} (h : (run o w).ending.exitCode? = some code) :
    ∃ made roots, Starts o w.tree made roots := by
  by_contra hStarts
  rw [exitCode_none_iff.2 hStarts] at h
  cases h

/-- The directory for the log file cannot be made below a file. -/
example : (run ⟨[.root], .value ⟨.root, ["c.db"]⟩, .value ⟨.root, ["a", "run.log"]⟩, false, .unset,
    false⟩ ⟨⟨.plain .directory, [(["a"], .plain .file)]⟩, [], 0⟩).ending =
    .left (.disk (.failed .alreadyExists "/a")) := by
  cbv

end MediaIndex.CommandLine
