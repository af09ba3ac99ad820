import Mathlib.Data.List.Forall2
import MediaIndex.Media.Intake
import MediaIndex.Catalog.Batch

/-!
# Columns that are known before a file is opened

Whatever a file holds, the record taken in for it states its own path, its volume, its size and its
time, and the columns that may not be null are given. Who asked to be told of skipped files has no
bearing on the record.
-/

namespace MediaIndex

theorem bind_eq_ok_iff {ε α β : Type} {x : Except ε α} {f : α → Except ε β} {b : β} :
    (x >>= f) = .ok b ↔ ∃ a, x = .ok a ∧ f a = .ok b := by
  cases x <;> simp [bind, Except.bind]

theorem bind_eq_error_iff {ε α β : Type} {x : Except ε α} {f : α → Except ε β} {e : ε} :
    (x >>= f) = .error e ↔ x = .error e ∨ ∃ a, x = .ok a ∧ f a = .error e := by
  cases x <;> simp [bind, Except.bind]

theorem mapM_eq_ok_iff {ε α β : Type} {f : α → Except ε β} {xs : List α} {ys : List β} :
    xs.mapM f = .ok ys ↔ List.Forall₂ (fun x y => f x = .ok y) xs ys := by
  induction xs generalizing ys with
  | nil => simp [pure, Except.pure, eq_comm]
  | cons x xs ih =>
    rw [List.mapM_cons, bind_eq_ok_iff, List.forall₂_cons_left_iff]
    refine exists_congr fun y => ?_
    simp only [bind_eq_ok_iff, ih, pure, Except.pure, Except.ok.injEq]
    constructor
    · rintro ⟨hx, rest, hRest, rfl⟩
      exact ⟨rest, hx, hRest, rfl⟩
    · rintro ⟨rest, hx, hRest, rfl⟩
      exact ⟨hx, rest, hRest, rfl⟩

/-- A list of conversions that fails does so with the failure of one of them. -/
theorem exists_error_of_mapM {ε α β : Type} {f : α → Except ε β} {xs : List α} {e : ε}
    (h : xs.mapM f = .error e) : ∃ x ∈ xs, f x = .error e := by
  induction xs with
  | nil => cases h
  | cons x xs ih =>
    rw [List.mapM_cons, bind_eq_error_iff] at h
    obtain hFirst | ⟨y, -, hRest⟩ := h
    · exact ⟨x, List.mem_cons_self, hFirst⟩
    · obtain hRest | ⟨ys, -, hDone⟩ := bind_eq_error_iff.mp hRest
      · obtain ⟨x', hMem, hx'⟩ := ih hRest
        exact ⟨x', List.mem_cons_of_mem x hMem, hx'⟩
      · cases hDone

theorem mapError_eq_ok_iff {ε ε' α : Type} {x : Except ε α} {f : ε → ε'} {a : α} :
    x.mapError f = .ok a ↔ x = .ok a := by
  cases x with
  | error e => exact iff_of_false nofun nofun
  | ok b =>
    constructor
    · exact fun h => congrArg Except.ok (Except.ok.inj h)
    · exact fun h => congrArg Except.ok (Except.ok.inj h)

namespace Catalog.Record

theorem putAll_of_notMem {values : List (Column × Media.Value)} {c : Column}
    (h : c ∉ values.map (·.1)) (r : Record) : r.putAll values c = r c := by
  induction values generalizing r with
  | nil => rfl
  | cons entry values ih =>
    rw [List.map_cons, List.mem_cons, not_or] at h
    rw [putAll, List.foldl_cons]
    exact (ih h.2 _).trans (r.put_of_ne _ h.1)

end Catalog.Record

namespace Media

open Catalog (Cell Column Record)
open Disk (Attributes Tree)

/-- The columns that the extractor of a category fills in by what a decoder says. -/
def Category.columns : Category → List Column
  | directory | playlist => []
  | audio => [.title, .duration, .artist, .albumArtist, .compilation, .composer, .album, .track,
      .year, .genre] ++ audioFolders.map (·.2)
  | video => [.title, .width, .height, .duration, .artist, .album, .resolution, .dateTaken,
      .colorStandard, .colorTransfer, .colorRange]
  | image => [.width, .height, .description, .dateTaken, .orientation]

/-- The columns that no decoder has a say in. -/
def knownColumns : List Column :=
  [.path, .volumeName, .size, .dateModified, .mimeType, .mediaType, .isDrm]

theorem notMem_columns_of_known {c : Column} (h : c ∈ knownColumns) (category : Category) :
    c ∉ category.columns := by
  revert c
  cases category <;> decide

theorem audioFlags_columns (path : String) :
    (audioFlags path).map (·.1) = audioFolders.map (·.2) := by
  rw [audioFlags]
  split <;> simp [List.map_map, Function.comp_def]

theorem audioColumns_of_notMem {base record : Record} {path : String} {stream : AudioStream}
    (h : audioColumns base path stream = .ok record) {c : Column}
    (hc : c ∉ Category.audio.columns) : record c = base c := by
  simp only [audioColumns, bind_eq_ok_iff] at h
  obtain ⟨_, -, _, -, _, -, _, -, _, -, _, -, _, -, _, -, _, -, _, -, h⟩ := h
  rw [← Except.ok.inj h]
  refine Record.putAll_of_notMem ?_ base
  simp only [List.map_append, List.map_map, Function.comp_def, audioFlags_columns, List.map_cons,
    List.map_nil]
  exact hc

theorem videoColumns_of_notMem {s : Source} {general video : Tags} {record : Record}
    (h : videoColumns s general video = .ok record) {c : Column}
    (hc : c ∉ Category.video.columns) : record c = s.record .video c := by
  simp only [videoColumns, bind_eq_ok_iff] at h
  obtain ⟨_, -, _, -, _, -, _, -, _, -, h⟩ := h
  rw [← Except.ok.inj h]
  exact Record.putAll_of_notMem hc _

theorem imageColumns_of_notMem {s : Source} {tags : PictureTags} {width height : Value}
    {extraction : Extraction} (h : imageColumns s tags width height = .ok extraction) {c : Column}
    (hc : c ∉ Category.image.columns) : extraction.record c = s.record .image c := by
  simp only [imageColumns, bind_eq_ok_iff] at h
  obtain ⟨_, -, _, -, _, -, _, -, h⟩ := h
  rw [← Except.ok.inj h]
  exact Record.putAll_of_notMem hc _

theorem extractAudio_eq_ok {t : Tree} {s : Source} {extraction : Extraction}
    (h : extractAudio t s = .ok extraction) :
    ∃ stream, audioColumns (s.record .audio) s.path.text stream = .ok extraction.record := by
  simp only [extractAudio, bind_eq_ok_iff] at h
  obtain ⟨found, -, h⟩ := h
  cases found with
  | none => cases h
  | some stream =>
    obtain ⟨record, hRecord, h⟩ := bind_eq_ok_iff.mp h
    rw [← Except.ok.inj h]
    exact ⟨stream, mapError_eq_ok_iff.mp hRecord⟩

theorem extractVideo_eq_ok {t : Tree} {s : Source} {extraction : Extraction}
    (h : extractVideo t s = .ok extraction) :
    ∃ general video, videoColumns s general video = .ok extraction.record := by
  simp only [extractVideo, bind_eq_ok_iff] at h
  obtain ⟨tracks, -, h⟩ := h
  split at h
  · obtain ⟨record, hRecord, h⟩ := bind_eq_ok_iff.mp h
    rw [← Except.ok.inj h]
    exact ⟨_, _, mapError_eq_ok_iff.mp hRecord⟩
  · cases h

theorem extractImage_eq_ok {t : Tree} {s : Source} {extraction : Extraction}
    (h : extractImage t s = .ok extraction) : ∃ tags width height,
      readPicture t s = .ok (tags, width, height) ∧
        imageColumns s tags width height = .ok extraction := by
  simp only [extractImage, bind_eq_ok_iff] at h
  obtain ⟨⟨tags, width, height⟩, hPicture, h⟩ := h
  exact ⟨tags, width, height, mapError_eq_ok_iff.mp hPicture, mapError_eq_ok_iff.mp h⟩

theorem extract_of_notMem {t : Tree} {category : Category} {s : Source} {extraction : Extraction}
    (h : extract t category s = .ok extraction) {c : Column} (hc : c ∉ category.columns) :
    extraction.record c = s.record category c := by
  cases category with
  | directory => rw [← Except.ok.inj h]
  | playlist => rw [← Except.ok.inj h]
  | audio =>
    obtain ⟨stream, hRecord⟩ := extractAudio_eq_ok h
    exact audioColumns_of_notMem hRecord hc
  | video =>
    obtain ⟨general, video, hRecord⟩ := extractVideo_eq_ok h
    exact videoColumns_of_notMem hRecord hc
  | image =>
    obtain ⟨tags, width, height, -, hRecord⟩ := extractImage_eq_ok h
    exact imageColumns_of_notMem hRecord hc

/-- The record that is taken in for a path, if there is one. -/
def recordOf? (t : Tree) (a : Attributes) (volume : String) : Option Record :=
  match takeIn t false a volume with
  | .ok intake => intake.record
  | .error _ => none

theorem record_of_takeIn {t : Tree} {told : Bool} {a : Attributes} {volume : String}
    {intake : Intake} (h : takeIn t told a volume = .ok intake) :
    intake.record = recordOf? t a volume := by
  unfold recordOf?
  unfold takeIn at h ⊢
  grind [Intake.none]

theorem takeIn_eq_error_iff {t : Tree} {told : Bool} {a : Attributes} {volume : String}
    {fault : Disk.Fault} : takeIn t told a volume = .error fault ↔
      takeIn t false a volume = .error fault := by
  unfold takeIn
  grind

theorem eq_interrupted_of_takeIn {t : Tree} {told : Bool} {a : Attributes} {volume : String}
    {fault : Disk.Fault} (h : takeIn t told a volume = .error fault) : fault = .interrupted := by
  unfold takeIn at h
  grind

def sourceOf (a : Attributes) (volume : String) : Source :=
  ⟨a, if a.isDirectory then none else guessType? a.path.name, volume⟩

theorem takeIn_of_extract {t : Tree} {told : Bool} {a : Attributes} {volume : String}
    {category : Category} {extraction : Extraction}
    (hCategory : categoryOf? a.path.name a.isDirectory = some category)
    (hExtract : extract t category (sourceOf a volume) = .ok extraction) :
    takeIn t told a volume = .ok ⟨extraction.notes, some extraction.record⟩ := by
  unfold sourceOf at hExtract
  simp only [takeIn, hCategory, hExtract]

theorem exists_extract_of_recordOf? {t : Tree} {a : Attributes} {volume : String} {record : Record}
    (h : recordOf? t a volume = some record) :
    ∃ category extraction, categoryOf? a.path.name a.isDirectory = some category ∧
      extract t category (sourceOf a volume) = .ok extraction ∧ extraction.record = record := by
  unfold recordOf? takeIn at h
  unfold sourceOf
  grind [Intake.none]

section

variable {t : Tree} {a : Attributes} {volume : String} {record : Record}

theorem recordOf?_known (h : recordOf? t a volume = some record) :
    ∃ category, categoryOf? a.path.name a.isDirectory = some category ∧
      ∀ c ∈ knownColumns, record c = (sourceOf a volume).record category c := by
  obtain ⟨category, extraction, hCategory, hExtract, rfl⟩ := exists_extract_of_recordOf? h
  exact ⟨category, hCategory, fun c hc =>
    extract_of_notMem hExtract (notMem_columns_of_known hc category)⟩

theorem recordOf?_path (h : recordOf? t a volume = some record) :
    record .path = .text a.path.text := by
  obtain ⟨category, -, hRecord⟩ := recordOf?_known h
  exact hRecord .path (by decide)

theorem recordOf?_volumeName (h : recordOf? t a volume = some record) :
    record .volumeName = .text volume := by
  obtain ⟨category, -, hRecord⟩ := recordOf?_known h
  exact hRecord .volumeName (by decide)

theorem recordOf?_size (h : recordOf? t a volume = some record) : record .size = .int a.size := by
  obtain ⟨category, -, hRecord⟩ := recordOf?_known h
  exact hRecord .size (by decide)

theorem recordOf?_dateModified (h : recordOf? t a volume = some record) :
    record .dateModified = .int a.modifiedSecond := by
  obtain ⟨category, -, hRecord⟩ := recordOf?_known h
  exact hRecord .dateModified (by decide)

end

/-! ## What the table stores of them -/

theorem cells_text {record : Record} {c : Column} {s : String} (h : record c = .text s)
    (hc : c.affinity = .text) : record.cells c = .text s := by
  simp [Record.cells, h, Cell.bind, hc, Cell.convert]

theorem cells_null {record : Record} {c : Column} (h : record c = .null) :
    record.cells c = .null := by
  simp only [Record.cells, h, Cell.bind]
  cases c.affinity <;> rfl

theorem cells_int {record : Record} {c : Column} {n : Int} (h : record c = .int n)
    (hFits : Catalog.fitsWord n = true) (hc : c.affinity = .integer) :
    record.cells c = .integer n := by
  simp [Record.cells, h, Cell.bind, hFits, hc, Cell.convert]

/-- Every value of the record can be given to the table. -/
def IsStorable (record : Record) : Prop := ∀ c, ∃ cell, Cell.bind (record c) = .ok cell

theorem firstUnbound?_eq_none_iff {record : Record} :
    record.firstUnbound? = none ↔ IsStorable record := by
  rw [Record.firstUnbound?, List.findSome?_eq_none_iff]
  constructor
  · intro h c
    obtain ⟨i, hi, hc⟩ := List.getElem_of_mem (Column.mem_all c)
    have hNone := h (c, i) (List.mem_zipIdx_iff_getElem?.mpr (by simp [hi, hc]))
    cases hBind : Cell.bind (record c) with
    | ok cell => exact ⟨cell, rfl⟩
    | error e => cases e <;> simp [hBind] at hNone
  · rintro h ⟨c, i⟩ _
    obtain ⟨cell, hBind⟩ := h c
    simp [hBind]

theorem IsStorable.fitsWord {record : Record} (h : IsStorable record) {c : Column} {n : Int}
    (hc : record c = .int n) : Catalog.fitsWord n = true := by
  obtain ⟨cell, hBind⟩ := h c
  rw [hc, Cell.bind] at hBind
  split at hBind
  · assumption
  · cases hBind

theorem IsStorable.cells_int {record : Record} (h : IsStorable record) {c : Column} {n : Int}
    (hc : record c = .int n) (hInteger : c.affinity = .integer) : record.cells c = .integer n :=
  Media.cells_int hc (h.fitsWord hc) hInteger

/-- The columns that may not be null never are. -/
theorem firstMissing?_recordOf? {t : Tree} {a : Attributes} {volume : String} {record : Record}
    (h : recordOf? t a volume = some record) : Catalog.firstMissing? record.cells = none := by
  have hPath := cells_text (recordOf?_path h) rfl
  have hVolume := cells_text (recordOf?_volumeName h) rfl
  obtain ⟨category, -, hRecord⟩ := recordOf?_known h
  have hType : record.cells .mediaType = .integer category.code :=
    cells_int (hRecord .mediaType (by decide)) (by cases category <;> decide) rfl
  have hDrm : record.cells .isDrm = .integer 0 :=
    cells_int (hRecord .isDrm (by decide)) (by decide) rfl
  simp [Catalog.firstMissing?, Column.required, hPath, hVolume, hType, hDrm]

end Media

end MediaIndex
