import MediaIndex.Proofs.CleanPass
import MediaIndex.Proofs.RecordShapes

/-!
# The kind of thing that a row tells of

A row tells by its category and its media type what kind of thing stands at its path. A record tells
the kind of the entry that it was made of, and a row that is kept goes on to tell what it told. A
file keeps its row only if size and second are the same; a directory keeps any row of its path, and
so also one that was written for a file.
-/

namespace MediaIndex.Reconcile

open Catalog (Cell Column Record Row Store Table)
open Disk (Attributes Node Tree)

variable {t : Tree} {volume : String} {before now : Table} {a b : Attributes} {r : Row}
  {record : Record}

/-- The columns tell the kind of the entry: a directory has neither category nor media type, a file
has what its name gives. -/
def TellsKind (a : Attributes) (cells : Column → Cell) : Prop :=
  if a.isDirectory then cells .mediaType = .integer 0 ∧ cells .mimeType = .null
  else ∃ category type, Media.categoryOf? a.path.name false = some category ∧
    Media.guessType? a.path.name = some type ∧ cells .mediaType = .integer category.code ∧
    cells .mimeType = .text type

/-- The row is one of the volume by which the entry counts as unchanged. -/
def KeepsRow (a : Attributes) (volume : String) (r : Row) : Prop :=
  r.cells .volumeName = .text volume ∧ (a.isDirectory = true ∨
    matchesEntry a ⟨r.id, r.cells .size, r.cells .dateModified⟩ = true)

/-! ## Records tell the kind of their entry -/

theorem tellsKind_of_recordOf? (h : Media.recordOf? t a volume = some record) :
    TellsKind a record.cells := by
  obtain ⟨category, hCategory, hKnown⟩ := Media.recordOf?_known h
  have hMediaType : record.cells .mediaType = .integer category.code :=
    Media.cells_int (hKnown .mediaType (by decide)) (by cases category <;> decide) rfl
  rcases Media.mimeType_cases hCategory (hKnown .mimeType (by decide)) with
    ⟨hDirectory, rfl, hNone⟩ | ⟨hFile, hCategory, type, hType, hText⟩
  · rw [TellsKind, if_pos hDirectory]
    exact ⟨hMediaType, hNone⟩
  · rw [TellsKind, if_neg (by simp [hFile])]
    exact ⟨category, type, hCategory, hType, hMediaType, hText⟩

/-- A row that tells the kind of one entry tells that of a directory exactly if that entry is one,
too. -/
theorem TellsKind.directory_iff {cells : Column → Cell} (h : TellsKind b cells)
    (ha : a.isDirectory = true) : TellsKind a cells ↔ b.isDirectory = true := by
  unfold TellsKind at h ⊢
  rw [if_pos ha]
  split at h
  · next hb => exact iff_of_true h hb
  · next hb =>
    obtain ⟨category, type, hCategory, -, hMediaType, -⟩ := h
    refine iff_of_false ?_ hb
    rintro ⟨hNone, -⟩
    rw [hMediaType] at hNone
    exact (Media.categoryOf?_file hCategory).1 (Cell.integer.inj hNone)

/-! ## Rows that are kept -/

theorem exists_kept_iff (hNow : now.Sound) : (∃ entry, standing t volume now a = .kept entry) ↔
    ∃ r, now.rowOf? (.text a.path.text) = some r ∧ KeepsRow a volume r := by
  simp only [standing_eq_kept_iff, hNow.lookup_eq, Option.map_eq_some_iff,
    Option.filter_eq_some_iff, Row.hasText, beq_iff_eq]
  constructor
  · rintro ⟨entry, ⟨r, ⟨hRow, hVolume⟩, rfl⟩, hSame⟩
    exact ⟨r, hRow, hVolume, hSame⟩
  · rintro ⟨r, hRow, hVolume, hSame⟩
    exact ⟨_, ⟨r, ⟨hRow, hVolume⟩, rfl⟩, hSame⟩

/-- By a row that is due its entry counts as unchanged from then on. -/
theorem RowDue.keepsRow (h : RowDue t volume before a r) (hBefore : before.Sound) :
    KeepsRow a volume r := by
  cases h with
  | @kept entry hKept hRow =>
    obtain ⟨old, hOld, hKeeps⟩ := (exists_kept_iff hBefore).mp ⟨entry, hKept⟩
    exact Option.some.inj (hOld.symm.trans hRow) ▸ hKeeps
  | @written record hTaken hStorable hCells hInherits =>
    rw [KeepsRow, hCells]
    exact ⟨volumeName_of_taken hTaken, .inr (matchesEntry_of_taken hTaken hStorable r.id)⟩

/-- A row that is due tells the kind of its entry exactly if the row that it was kept from does. -/
theorem RowDue.tellsKind_iff (h : RowDue t volume before a r) (hBefore : before.Sound) :
    TellsKind a r.cells ↔ ∀ old, before.rowOf? (.text a.path.text) = some old →
      KeepsRow a volume old → TellsKind a old.cells := by
  cases h with
  | @kept entry hKept hRow =>
    obtain ⟨old, hOld, hKeeps⟩ := (exists_kept_iff hBefore).mp ⟨entry, hKept⟩
    obtain rfl := Option.some.inj (hRow.symm.trans hOld)
    constructor
    · intro hTells other hOther _
      exact Option.some.inj (hRow.symm.trans hOther) ▸ hTells
    · intro hAll
      exact hAll r hRow hKeeps
  | @written record hTaken hStorable hCells hInherits =>
    refine iff_of_true ?_ ?_
    · rw [hCells]
      exact tellsKind_of_recordOf? (recordOf?_of_taken hTaken)
    · intro old hOld hKeeps
      obtain ⟨entry, hKept⟩ := (exists_kept_iff hBefore).mpr ⟨old, hOld, hKeeps⟩
      rw [hKept] at hTaken
      cases hTaken

section

variable {p : Pass} {middle after : Table} {walk sweep : List Call} {half full : Queue}

theorem Complete.row_of_keepsRow (h : Complete t p before middle after walk sweep half full)
    (hBefore : before.Sound) (ha : a ∈ p.visited t)
    (hRow : before.rowOf? (.text a.path.text) = some r) (hKeeps : KeepsRow a p.volume r) :
    after.rowOf? (.text a.path.text) = some r := by
  obtain ⟨entry, hKept⟩ := (exists_kept_iff hBefore).mpr ⟨r, hRow, hKeeps⟩
  obtain ⟨other, hOther, hMiddle, -⟩ := h.middle_of_kept hBefore ha hKept
  rw [h.after_of_confirmed ha (.inl ⟨entry, hKept⟩) hMiddle, ← hOther, hRow]

end

/-! ## Two passes over one path -/

/-- After two passes over a path that return and lose no batch, whatever happened to the tree
between them, every row of the volume at or below the path is of a visited entry, and it tells the
kind of the entry exactly if the row that it was kept from told it. Where the first pass took
something in that is a directory by now, its row stays as it was written, and so it tells the kind
exactly if a directory was taken in. -/
theorem kind_told_iff {t₁ t₂ : Tree} {p₁ p₂ : Pass} {path : Path} {told₁ told₂ : Bool}
    {size₁ size₂ : Int} {s₁ s₂ : Store} (hTree₁ : t₁.WellFormed) (hTree₂ : t₂.WellFormed)
    (hPath : path.IsProper) (hBefore : before.Sound)
    (hStart₁ : Pass.start t₁ path told₁ size₁ = .ok p₁) (hs₁ : s₁.contents = .table before)
    (hReturns₁ : ((p₁.run t₁).run s₁).result.failure = none)
    (hFailed₁ : ((p₁.run t₁).run s₁).result.pass.queue.failed = 0)
    (hStart₂ : Pass.start t₂ path told₂ size₂ = .ok p₂)
    (hs₂ : s₂.contents = ((p₁.run t₁).run s₁).store.contents)
    (hReturns₂ : ((p₂.run t₂).run s₂).result.failure = none)
    (hFailed₂ : ((p₂.run t₂).run s₂).result.pass.queue.failed = 0) :
    ∃ between after, ((p₁.run t₁).run s₁).store.contents = .table between ∧
      ((p₂.run t₂).run s₂).store.contents = .table after ∧
      (∀ r ∈ after.rows, Table.IsOf p₂.volume p₂.root r → ∃ a ∈ p₂.visited t₂,
        r.cells .path = .text a.path.text ∧
        (TellsKind a r.cells ↔ ∀ old, between.rowOf? (.text a.path.text) = some old →
          KeepsRow a p₂.volume old → TellsKind a old.cells)) ∧
      (p₁.volume = p₂.volume → ∀ a ∈ p₂.visited t₂, a.isDirectory = true →
        ∀ b ∈ p₁.visited t₁, b.path.text = a.path.text →
          ∀ record, standing t₁ p₁.volume before b = .taken record →
            ∃ r, after.rowOf? (.text a.path.text) = some r ∧ r.cells = record.cells ∧
              (TellsKind a r.cells ↔ b.isDirectory = true)) := by
  have hRoot₁ : p₁.root.IsAbsolute := (Pass.start_eq_ok hStart₁).2 ▸ hPath.absolute
  have hRoot₂ : p₂.root.IsAbsolute := (Pass.start_eq_ok hStart₂).2 ▸ hPath.absolute
  obtain ⟨between, _, _, _, _, hBetween, -, h₁⟩ :=
    complete_of_run hTree₁ hPath hBefore hStart₁ hs₁ hReturns₁
  have hSound := h₁.erases.sound
  obtain ⟨after, _, _, _, _, hAfter, -, h₂⟩ :=
    complete_of_run hTree₂ hPath hSound hStart₂ (hs₂.trans hBetween) hReturns₂
  refine ⟨between, after, hBetween, hAfter, ?_, ?_⟩
  · intro r hr hIsOf
    obtain ⟨a, ha, hText, hDue⟩ := h₂.rowDue_of_isOf hTree₂ hSound hRoot₂ hFailed₂ hr hIsOf
    exact ⟨a, ha, hText, hDue.tellsKind_iff hSound⟩
  · intro hVolume a ha hDirectory b hb hSame record hTaken
    obtain ⟨r, hRow, hCells⟩ := h₁.row_of_taken hTree₁ hBefore hRoot₁ hFailed₁ hb hTaken
    rw [hSame] at hRow
    have hKeeps : KeepsRow a p₂.volume r := by
      refine ⟨?_, .inl hDirectory⟩
      rw [hCells, volumeName_of_taken hTaken, hVolume]
    refine ⟨r, h₂.row_of_keepsRow hSound ha hRow hKeeps, hCells, ?_⟩
    rw [hCells]
    exact (tellsKind_of_recordOf? (recordOf?_of_taken hTaken)).directory_iff hDirectory

/-! ## A directory in the place of a playlist -/

def folderTree : Tree :=
  ⟨.plain .directory, [(["m"], .plain .directory), (["m", "a.m3u"], .plain .directory)]⟩

def folder : Attributes :=
  ⟨⟨.root, ["m", "a.m3u"]⟩, 4096, Node.defaultTime, Node.defaultTime, true⟩

theorem folderTree_wellFormed : folderTree.WellFormed := ⟨by decide, by decide⟩

theorem folder_start : Pass.start folderTree ⟨.root, ["m"]⟩ false 32 = .ok playlistPass := by cbv

theorem folder_reports : playlistPass.Reports folderTree
    [.visit playlistDirectory, .visit folder, .leave folder.path, .leave ⟨.root, ["m"]⟩] :=
  ⟨by cbv, Walk.walk_of_nested (by cbv) (by cbv) (by cbv), by decide +kernel⟩

theorem playlistFile_taken :
    ∃ record, standing playlistTree "/" outdatedTable playlistFile = .taken record :=
  exists_taken_of_isSome (by decide +kernel)

/-- The row of the playlist stays for the directory. -/
theorem kind_told_iff_folder :
    let first := (playlistPass.run playlistTree).run (.ofTable outdatedTable 0)
    let second := (playlistPass.run folderTree).run first.store
    (first.result.failure = none ∧ first.result.pass.queue.failed = 0) ∧
      (second.result.failure = none ∧ second.result.pass.queue.failed = 0) ∧
      ∃ after r, second.store.contents = .table after ∧
        after.rowOf? (.text "/m/a.m3u") = some r ∧ ¬ TellsKind folder r.cells := by
  intro first second
  have hHealthy : (Store.ofTable outdatedTable 0).Healthy := ⟨⟨rfl, rfl, rfl⟩, rfl, rfl⟩
  obtain ⟨hReturns, hFailed, between, hBetween, hSound, hNumbered⟩ :=
    clean_of_healthy playlistTree_wellFormed playlist_isProper outdatedTable_sound playlist_start
      rfl hHealthy playlist_reports.quiet playlist_reports.storable outdatedTable_numbered
      (by decide)
  obtain ⟨hReturns', hFailed', -⟩ := clean_of_healthy folderTree_wellFormed playlist_isProper hSound
    folder_start hBetween ((playlistPass.run playlistTree).healthy_run hHealthy).1
    folder_reports.quiet folder_reports.storable hNumbered (by rw [playlist_visited]; decide)
  obtain ⟨_, after, -, hAfter, -, hTaken⟩ := kind_told_iff playlistTree_wellFormed
    folderTree_wellFormed playlist_isProper outdatedTable_sound playlist_start rfl hReturns hFailed
    folder_start rfl hReturns' hFailed'
  have hFolder : folder ∈ playlistPass.visited folderTree := by
    rw [folder_reports.visited]
    exact List.mem_cons_of_mem _ List.mem_cons_self
  have hFile : playlistFile ∈ playlistPass.visited playlistTree := by
    rw [playlist_visited]
    exact List.mem_cons_of_mem _ List.mem_cons_self
  obtain ⟨record, hRecord⟩ := playlistFile_taken
  obtain ⟨r, hRow, -, hTells⟩ := hTaken rfl folder hFolder rfl playlistFile hFile rfl record hRecord
  refine ⟨⟨hReturns, hFailed⟩, ⟨hReturns', hFailed'⟩, after, r, hAfter, ?_, ?_⟩
  · exact hRow
  · rw [hTells]
    decide

end MediaIndex.Reconcile
