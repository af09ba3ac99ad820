import Mathlib.Order.Lattice
import MediaIndex.Catalog.CatalogFile

/-!
# Preparing catalog files

A file that states a version is prepared statement by statement, and what was made before one that
fails stays. So it gets its table of files, unless an index has that name, and those of the missing
indexes that come before the first one that cannot be made. It is left as it was exactly if that is
nothing, or if another connection has locked it.
-/

namespace MediaIndex.Catalog.CatalogFile

/-- The same tables, indexes and rows. -/
structure Keeps (before after : CatalogFile) : Prop where
  versions : after.versions = before.versions
  files : after.files = before.files
  indexes : after.indexes = before.indexes
  tables : after.tables = before.tables

theorem Keeps.refl (f : CatalogFile) : f.Keeps f := ⟨rfl, rfl, rfl, rfl⟩

/-- The file with the table of files, unless that cannot be made. -/
def withFiles (f : CatalogFile) : CatalogFile :=
  match f.files with
  | .absent => if "files" ∈ f.indexes then f else { f with files := .table .empty }
  | _ => f

def missingIndexes (f : CatalogFile) : List (String × List Column) :=
  indexColumns.filter fun index => index.1 ∉ f.indexes

/-- The missing indexes that come before the first one that cannot be made. -/
def nextIndexes (f : CatalogFile) : List (String × List Column) :=
  f.missingIndexes.takeWhile fun index => (f.indexFault? index).isNone

/-- The file with all that is made for the table of files before something cannot be made. -/
def furnished (f : CatalogFile) : CatalogFile :=
  { f.withFiles with indexes := f.withFiles.indexes ++ f.withFiles.nextIndexes.map (·.1) }

/-- Why the file cannot be given all that it lacks for the table of files. -/
def furnishingFault? (f : CatalogFile) : Option StoreFault :=
  match f.withFiles.files with
  | .absent => some (.indexNamed "files")
  | _ => f.withFiles.missingIndexes.findSome? f.withFiles.indexFault?

/-- The table of files is missing and can be made, or the first of its missing indexes can be. -/
def Lacks (f : CatalogFile) : Prop :=
  f.locked = false ∧ (f.files = .absent ∧ "files" ∉ f.indexes ∨ f.nextIndexes ≠ [])

variable {f g : CatalogFile}

/-! ## Versions -/

theorem le_foldl_max (vs : List Int) (v : Int) : v ≤ vs.foldl max v := by
  induction vs generalizing v with
  | nil => exact le_refl v
  | cons w vs ih => exact (le_max_left v w).trans (ih (max v w))

theorem le_foldl_max_of_mem {vs : List Int} {w : Int} (h : w ∈ vs) (v : Int) :
    w ≤ vs.foldl max v := by
  induction vs generalizing v with
  | nil => cases h
  | cons u vs ih =>
    rcases List.mem_cons.1 h with rfl | h
    · exact (le_max_right v w).trans (le_foldl_max vs (max v w))
    · exact ih h (max v u)

/-- The version of a file is at least each version that it states. -/
theorem le_version {f : CatalogFile} {versions : List Int} {v : Int}
    (stated : f.versions = some versions) (listed : v ∈ versions) : v ≤ f.version := by
  cases versions with
  | nil => cases listed
  | cons first rest =>
    rw [version, stated]
    rcases List.mem_cons.1 listed with rfl | listed
    · exact le_foldl_max rest v
    · exact le_foldl_max_of_mem listed first

/-! ## Statement by statement -/

theorem change_of_locked (h : f.locked = true) (next : CatalogFile) :
    f.change next = .error .locked := by
  rw [change, if_pos h]

theorem change_of_unlocked (h : f.locked = false) (next : CatalogFile) :
    f.change next = .ok next := by
  rw [change, if_neg (by simp [h])]

section Statements

variable {make : CatalogFile → Except StoreFault CatalogFile}
  {rest : List (CatalogFile → Except StoreFault CatalogFile)}

theorem makeAll_of_ok (h : make f = .ok g) : f.makeAll (make :: rest) = g.makeAll rest := by
  rw [makeAll, h]

theorem makeAll_of_error {fault : StoreFault} (h : make f = .error fault) :
    f.makeAll (make :: rest) = (f, some fault) := by
  rw [makeAll, h]

/-- All statements are done only if the first one is. -/
theorem exists_ok_of_makeAll (h : (f.makeAll (make :: rest)).2 = none) :
    ∃ next, make f = .ok next ∧ f.makeAll (make :: rest) = next.makeAll rest := by
  cases hMake : make f with
  | ok next => exact ⟨next, rfl, makeAll_of_ok hMake⟩
  | error fault =>
    rw [makeAll_of_error hMake] at h
    cases h

/-- What every statement preserves, all of them together do. -/
theorem makeAll_preserves {P : CatalogFile → Prop}
    {statements : List (CatalogFile → Except StoreFault CatalogFile)}
    (step : ∀ make ∈ statements, ∀ f g, P f → make f = .ok g → P g) (h : P f) :
    P (f.makeAll statements).1 := by
  induction statements generalizing f with
  | nil => exact h
  | cons make rest ih =>
    cases hMake : make f with
    | error fault => rwa [makeAll_of_error hMake]
    | ok next =>
      rw [makeAll_of_ok hMake]
      exact ih (fun other hOther => step other (List.mem_cons_of_mem _ hOther))
        (step make List.mem_cons_self f next h hMake)

end Statements

/-! ## The table of files and its indexes -/

theorem files_of_makeIndex {index : String × List Column} (h : makeIndex index f = .ok g) :
    g.files = f.files := by
  unfold makeIndex change at h
  split at h
  · cases h
    rfl
  · split at h
    · cases h
    · split at h <;> cases h
      rfl

theorem makeIndex_of_locked (hLocked : f.locked = true) {index : String × List Column}
    (h : makeIndex index f = .ok g) : g = f := by
  unfold makeIndex at h
  split at h
  · exact (Except.ok.inj h).symm
  · split at h
    · cases h
    · rw [change_of_locked hLocked] at h
      cases h

theorem makeFiles_of_present (h : f.files ≠ .absent) : f.makeFiles = .ok f := by
  unfold makeFiles
  split
  · contradiction
  · rfl

theorem makeFiles_of_locked (hLocked : f.locked = true) (h : f.makeFiles = .ok g) : g = f := by
  unfold makeFiles makeTable at h
  split at h
  · split at h
    · cases h
    · rw [change_of_locked hLocked] at h
      cases h
  · exact (Except.ok.inj h).symm

theorem files_of_makeFiles (h : f.makeFiles = .ok g) : g.files ≠ .absent := by
  unfold makeFiles makeTable change at h
  split at h
  · split at h
    · cases h
    · split at h <;> cases h
      simp
  · cases h
    assumption

theorem indexFault?_indexes (f : CatalogFile) (names : List String) :
    ({ f with indexes := names } : CatalogFile).indexFault? = f.indexFault? := rfl

/-- The indexes that are missing are made one by one up to the first that cannot be made. -/
theorem makeAll_makeIndex (hLocked : f.locked = false) {indexes : List (String × List Column)}
    (hNames : (indexes.map (·.1)).Nodup) :
    let missing := indexes.filter fun index => index.1 ∉ f.indexes
    f.makeAll (indexes.map makeIndex) =
      ({ f with indexes := f.indexes ++
          (missing.takeWhile fun index => (f.indexFault? index).isNone).map (·.1) },
        missing.findSome? f.indexFault?) := by
  induction indexes generalizing f with
  | nil => simp [makeAll]
  | cons index indexes ih =>
    rw [List.map_cons, List.nodup_cons] at hNames
    by_cases hThere : index.1 ∈ f.indexes
    · have hMake : makeIndex index f = .ok f := if_pos hThere
      rw [List.map_cons, makeAll_of_ok hMake, List.filter_cons_of_neg (by simpa using hThere)]
      exact ih hLocked hNames.2
    · rw [List.map_cons, List.filter_cons_of_pos (by simpa using hThere)]
      cases hFault : f.indexFault? index with
      | some fault =>
        have hMake : makeIndex index f = .error fault := by
          rw [makeIndex, if_neg hThere, hFault]
        rw [makeAll_of_error hMake]
        simp [hFault]
      | none =>
        have hMake : makeIndex index f = .ok { f with indexes := f.indexes ++ [index.1] } := by
          rw [makeIndex, if_neg hThere, hFault]
          exact change_of_unlocked hLocked _
        -- The index that was made is none of the others, so the same ones are missing of those.
        have hMissing : (indexes.filter fun other => other.1 ∉ f.indexes ++ [index.1]) =
            indexes.filter fun other => other.1 ∉ f.indexes := by
          refine List.filter_congr fun other hOther => ?_
          have hNe : other.1 ≠ index.1 := fun hSame => hNames.1 (hSame ▸ List.mem_map_of_mem hOther)
          simp [hNe]
        have hRest := ih (f := { f with indexes := f.indexes ++ [index.1] }) hLocked hNames.2
        dsimp only at hRest ⊢
        rw [hMissing, indexFault?_indexes, List.append_assoc] at hRest
        rw [makeAll_of_ok hMake, hRest, List.takeWhile_cons_of_pos (by simp [hFault]),
          List.findSome?_cons_of_isNone (by simp [hFault])]
        rfl

theorem withFiles_of_present (h : f.files ≠ .absent) : f.withFiles = f := by
  unfold withFiles
  split
  · contradiction
  · rfl

theorem nextIndexes_of_absent (h : f.files = .absent) : f.nextIndexes = [] := by
  have hNone : ∀ index, (f.indexFault? index).isNone = false := by
    intro index
    rw [indexFault?, h]
    split <;> rfl
  unfold nextIndexes
  cases f.missingIndexes with
  | nil => rfl
  | cons index indexes => rw [List.takeWhile_cons_of_neg (by simp [hNone])]

theorem makeAll_indexes (hLocked : f.locked = false) :
    f.makeAll (indexColumns.map makeIndex) =
      ({ f with indexes := f.indexes ++ f.nextIndexes.map (·.1) },
        f.missingIndexes.findSome? f.indexFault?) :=
  makeAll_makeIndex hLocked (by decide)

/-- All that can be made for the table of files is made, up to the first thing that cannot be. -/
theorem makeAll_furnishings (hLocked : f.locked = false) :
    f.makeAll furnishings = (f.furnished, f.furnishingFault?) := by
  by_cases hAbsent : f.files = .absent
  · by_cases hTaken : "files" ∈ f.indexes
    · have hSame : f.withFiles = f := by rw [withFiles, hAbsent, if_pos hTaken]
      have hMake : f.makeFiles = .error (.indexNamed "files") := by
        rw [makeFiles, hAbsent]
        exact if_pos hTaken
      have hFault : f.furnishingFault? = some (.indexNamed "files") := by
        rw [furnishingFault?, hSame, hAbsent]
      rw [furnishings, makeAll_of_error hMake, hFault, furnished, hSame,
        nextIndexes_of_absent hAbsent, List.map_nil, List.append_nil]
    · have hNew : f.withFiles = { f with files := .table .empty } := by
        rw [withFiles, hAbsent, if_neg hTaken]
      have hMake : f.makeFiles = .ok f.withFiles := by
        rw [makeFiles, hAbsent, hNew]
        exact (if_neg hTaken).trans (change_of_unlocked hLocked _)
      rw [furnishings, makeAll_of_ok hMake, furnished, furnishingFault?, hNew]
      exact makeAll_indexes hLocked
  · have hSame := withFiles_of_present hAbsent
    rw [furnishings, makeAll_of_ok (makeFiles_of_present hAbsent), furnished, furnishingFault?, hSame,
      makeAll_indexes hLocked]
    split
    · contradiction
    · rfl

theorem makeAll_furnishings_of_locked (hLocked : f.locked = true) :
    (f.makeAll furnishings).1 = f := by
  have hStep : ∀ make ∈ furnishings, ∀ g k, g = f → make g = .ok k → k = f := by
    rintro make hMake g k rfl h
    rcases List.mem_cons.mp hMake with rfl | hMake
    · exact makeFiles_of_locked hLocked h
    · obtain ⟨index, -, rfl⟩ := List.mem_map.mp hMake
      exact makeIndex_of_locked hLocked h
  exact makeAll_preserves hStep rfl

theorem keeps_furnished_iff (hLocked : f.locked = false) : f.Keeps f.furnished ↔ ¬ f.Lacks := by
  constructor
  · rintro hKeeps ⟨-, ⟨hAbsent, hFree⟩ | hNext⟩
    · have hFiles : f.furnished.files = .table .empty := by
        rw [furnished, withFiles, hAbsent, if_neg hFree]
      cases hFiles.symm.trans (hKeeps.files.trans hAbsent)
    · have hSame := withFiles_of_present (mt nextIndexes_of_absent hNext)
      have hIndexes : f.indexes ++ f.nextIndexes.map (·.1) = f.indexes := by
        have hFurnished := hKeeps.indexes
        rwa [furnished, hSame] at hFurnished
      exact hNext (List.map_eq_nil_iff.1 (List.append_right_eq_self.1 hIndexes))
  · intro hLacks
    have hNothing : ¬ (f.files = .absent ∧ "files" ∉ f.indexes) ∧ f.nextIndexes = [] := by
      simpa [Lacks, hLocked, not_or] using hLacks
    have hSame : f.withFiles = f := by
      by_cases hAbsent : f.files = .absent
      · have hTaken : "files" ∈ f.indexes := not_not.1 fun hFree => hNothing.1 ⟨hAbsent, hFree⟩
        rw [withFiles, hAbsent, if_pos hTaken]
      · exact withFiles_of_present hAbsent
    have hFurnished : f.furnished = f := by
      rw [furnished, hSame, hNothing.2, List.map_nil, List.append_nil]
    rw [hFurnished]
    exact .refl f

/-! ## Preparing a file -/

theorem writeAhead_of_unlocked (hLocked : f.locked = false) :
    f.writeAhead = .ok { f with writesAhead := true } := by
  unfold writeAhead
  split
  · next hAhead => rw [← hAhead]
  · exact change_of_unlocked hLocked _

theorem writeAhead_of_locked (hLocked : f.locked = true) (h : f.writeAhead = .ok g) : g = f := by
  unfold writeAhead at h
  split at h
  · exact (Except.ok.inj h).symm
  · rw [change_of_locked hLocked] at h
    cases h

theorem withFiles_ahead (f : CatalogFile) :
    ({ f with writesAhead := true } : CatalogFile).withFiles =
      { f.withFiles with writesAhead := true } := by
  obtain ⟨versions, files, indexes, tables, ahead, locked, obstruction⟩ := f
  unfold withFiles
  cases files with
  | absent =>
    dsimp only
    split <;> rfl
  | foreign columns rows => rfl
  | table table => rfl

theorem furnished_ahead (f : CatalogFile) :
    ({ f with writesAhead := true } : CatalogFile).furnished =
      { f.furnished with writesAhead := true } := by
  rw [furnished, withFiles_ahead]
  rfl

theorem furnishingFault?_ahead (f : CatalogFile) :
    ({ f with writesAhead := true } : CatalogFile).furnishingFault? = f.furnishingFault? := by
  rw [furnishingFault?, withFiles_ahead]
  rfl

theorem versions_furnished (f : CatalogFile) : f.furnished.versions = f.versions := by
  unfold furnished withFiles
  split
  · split <;> rfl
  · rfl

section Stated

variable {first : Int} {rest : List Int} (stated : f.versions = some (first :: rest))

include stated

theorem prepare_of_writeAhead (hAhead : f.writeAhead = .ok g)
    (hVersions : g.versions = f.versions) : f.prepare = g.makeAll furnishings := by
  have hStated : g.versions = some (first :: rest) := hVersions.trans stated
  have hMake : g.makeVersions = .ok g := by rw [makeVersions, hStated]
  have hStart : f.makeAll [writeAhead, makeVersions] = (g, none) := by
    rw [makeAll_of_ok hAhead, makeAll_of_ok hMake, makeAll]
  rw [prepare, hStart]
  exact if_neg (by simp [hStated])

/-- A file that states a version is prepared by making what it lacks for the table of files. -/
theorem prepare_of_unlocked (hLocked : f.locked = false) :
    f.prepare = ({ f.furnished with writesAhead := true }, f.furnishingFault?) := by
  have hAhead := writeAhead_of_unlocked hLocked
  have hMade := makeAll_furnishings (f := { f with writesAhead := true }) hLocked
  rw [furnished_ahead, furnishingFault?_ahead] at hMade
  exact (prepare_of_writeAhead stated hAhead rfl).trans hMade

theorem prepare_of_locked (hLocked : f.locked = true) : f.prepare.1 = f := by
  cases hAhead : f.writeAhead with
  | error fault => rw [prepare, makeAll_of_error hAhead]
  | ok g =>
    obtain rfl := writeAhead_of_locked hLocked hAhead
    rw [prepare_of_writeAhead stated hAhead rfl, makeAll_furnishings_of_locked hLocked]

/-- The file is kept as it was by being prepared exactly if it lacks nothing that can be made. -/
theorem keeps_prepare_iff : f.Keeps f.prepare.1 ↔ ¬ f.Lacks := by
  cases hLocked : f.locked with
  | true =>
    rw [prepare_of_locked stated hLocked]
    exact iff_of_true (.refl f) fun hLacks => Bool.false_ne_true (hLacks.1.symm.trans hLocked)
  | false =>
    rw [prepare_of_unlocked stated hLocked, ← keeps_furnished_iff hLocked]
    exact ⟨fun h => ⟨h.versions, h.files, h.indexes, h.tables⟩,
      fun h => ⟨h.versions, h.files, h.indexes, h.tables⟩⟩

theorem version_prepare : f.prepare.1.version = f.version := by
  cases hLocked : f.locked with
  | true => rw [prepare_of_locked stated hLocked]
  | false =>
    rw [prepare_of_unlocked stated hLocked]
    simp only [version, versions_furnished]

end Stated

/-! ## Counting the rows of a file that is prepared -/

theorem files_of_furnishings (h : (f.makeAll furnishings).2 = none) :
    (f.makeAll furnishings).1.files ≠ .absent := by
  obtain ⟨g, hMake, hRest⟩ := exists_ok_of_makeAll h
  rw [furnishings, hRest]
  refine makeAll_preserves (P := fun k => k.files ≠ .absent) ?_ (files_of_makeFiles hMake)
  intro make hMember k next hPresent hNext
  obtain ⟨index, -, rfl⟩ := List.mem_map.mp hMember
  rwa [files_of_makeIndex hNext]

theorem files_of_prepare (h : f.prepare.2 = none) : f.prepare.1.files ≠ .absent := by
  cases hStart : f.makeAll [writeAhead, makeVersions] with
  | mk g fault =>
    cases fault with
    | some fault =>
      rw [prepare, hStart] at h
      cases h
    | none =>
      by_cases hUnstated : g.versions = some []
      · cases hMade : g.makeAll (stateVersion :: furnishings) with
        | mk made fault =>
          cases fault with
          | some fault =>
            simp only [prepare, hStart, if_pos hUnstated, hMade] at h
            cases h
          | none =>
            have hPrepare : f.prepare = (made, none) := by
              simp only [prepare, hStart, if_pos hUnstated, hMade]
            obtain ⟨aged, -, hRest⟩ := exists_ok_of_makeAll (congrArg Prod.snd hMade)
            rw [hMade] at hRest
            have hPresent := files_of_furnishings (congrArg Prod.snd hRest.symm)
            rwa [← hRest, ← hPrepare] at hPresent
      · have hPrepare : f.prepare = g.makeAll furnishings := by
          simp only [prepare, hStart, if_neg hUnstated]
        rw [hPrepare] at h ⊢
        exact files_of_furnishings h

/-- A file that is prepared has a table of files, so that its records can be counted. -/
theorem count_of_prepare (h : f.prepare.2 = none) : ∃ count, f.prepare.1.count = .ok count := by
  have hPresent := files_of_prepare h
  unfold count
  split
  · contradiction
  · exact ⟨_, rfl⟩
  · exact ⟨_, rfl⟩

end MediaIndex.Catalog.CatalogFile
