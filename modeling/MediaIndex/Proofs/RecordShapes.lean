import MediaIndex.Proofs.IntakeColumns

/-!
# The shape of a record

Whatever the decoders report, a record that can be stored has the shape of its category: the columns
that its extractor leaves alone are null but for those that every record has, an audio file has a
title, an artist, an album and at least one flag, a video has a date and a resolution that goes with
its size, and a picture has a size and an orientation. Decoders of pictures are taken to report sizes
in integers.
-/

namespace MediaIndex

namespace Catalog.Record

theorem putAll_of_mem {values : List (Column × Media.Value)} (hDistinct : (values.map (·.1)).Nodup)
    {c : Column} {v : Media.Value} (h : (c, v) ∈ values) (r : Record) : r.putAll values c = v := by
  induction values generalizing r with
  | nil => cases h
  | cons entry values ih =>
    rw [List.map_cons, List.nodup_cons] at hDistinct
    rw [putAll, List.foldl_cons]
    rcases List.mem_cons.mp h with rfl | h
    · exact (putAll_of_notMem hDistinct.1 _).trans (r.put_same c v)
    · exact ih hDistinct.2 h _

end Catalog.Record

namespace Text

theorem eq_of_cutLast? {sep : Char} {cs front back : List Char}
    (h : cutLast? sep cs = some (front, back)) : cs = front ++ sep :: back := by
  induction cs generalizing front with
  | nil => cases h
  | cons c cs ih =>
    rw [cutLast?] at h
    split at h
    · next front' back' hCut =>
      cases h
      rw [List.cons_append, ← ih hCut]
    · split at h
      · next hSep =>
        cases h
        rw [hSep, List.nil_append]
      · cases h

end Text

namespace Media

open Catalog (Cell Column Record)
open Disk (Attributes Tree)

/-- The columns that every record has. -/
def basicColumns : List Column := .title :: knownColumns

def flagColumns : List Column := audioFolders.map (·.2)

/-- What the decoder of pixels reports is in integers. -/
def Decoded.HasIntegerPixels (d : Decoded) : Prop :=
  ∀ values, d.pixels = .found values → ∀ v ∈ values, ∃ n, v = .int n

/-- What a row of a category has to say in the columns of the category. -/
def Category.Describes (cells : Column → Cell) : Category → Prop
  | directory | playlist => True
  | audio =>
    (∀ c ∈ [Column.title, .artist, .album], ∃ s, cells c = .text s ∧ s ≠ "") ∧
    (∀ c ∈ flagColumns, cells c = .integer 0 ∨ cells c = .integer 1) ∧
    ∃ c ∈ flagColumns, cells c = .integer 1
  | video =>
    (∃ n, cells .dateTaken = .integer n) ∧
    ((∃ w h, cells .width = .integer w ∧ cells .height = .integer h ∧
        cells .resolution = .text (toString w ++ "x" ++ toString h)) ∨
      (cells .width = .null ∨ cells .height = .null) ∧ cells .resolution = .null)
  | image =>
    (∃ w, cells .width = .integer w) ∧ (∃ h, cells .height = .integer h) ∧
    ∃ degrees ∈ [0, 90, 180, 270], cells .orientation = .integer degrees

/-! ## Audio files -/

theorem tagText_ne_empty {tags : Tags} {key : String} {s : String}
    (h : tagText tags key = .ok (some s)) : s ≠ "" := by
  simp only [tagText] at h
  split at h
  · cases h
  · obtain ⟨value, -, h⟩ := bind_eq_ok_iff.mp h
    obtain ⟨text, -, h⟩ := bind_eq_ok_iff.mp h
    replace h := Except.ok.inj h
    split at h
    · cases h
    · next hText => exact Option.some.inj h ▸ hText

theorem orIfEmpty_tagText {tags : Tags} {key : String} {found : Option String}
    (h : tagText tags key = .ok found) {u : String} (hu : u ≠ "") :
    ∃ s, (Value.ofText? found).orIfEmpty (.text u) = .text s ∧ s ≠ "" := by
  cases found with
  | none => exact ⟨u, rfl, hu⟩
  | some s =>
    have hs := tagText_ne_empty h
    exact ⟨s, by simp [Value.ofText?, Value.orIfEmpty, Value.isEmpty, hs], hs⟩

theorem exists_audioFlag (path : String) {c : Column} (h : c ∈ flagColumns) :
    ∃ on, (c, on) ∈ audioFlags path := by
  rw [flagColumns, ← audioFlags_columns path] at h
  obtain ⟨⟨column, on⟩, hFlag, rfl⟩ := List.mem_map.mp h
  exact ⟨on, hFlag⟩

theorem exists_audioFlag_set (path : String) : ∃ c, (c, true) ∈ audioFlags path := by
  rw [audioFlags]
  split
  · next hAny =>
    obtain ⟨⟨c, on⟩, hFlag, hOn⟩ := List.any_eq_true.mp hAny
    exact ⟨c, (show on = true from hOn) ▸ hFlag⟩
  · exact ⟨.isMusic, by simp [audioFolders]⟩

theorem audioColumns_describes {base record : Record} {path : String} {stream : AudioStream}
    (h : audioColumns base path stream = .ok record) {u : String} (hTitle : base .title = .text u)
    (hu : u ≠ "") :
    (∀ c ∈ [Column.title, .artist, .album], ∃ s, record c = .text s ∧ s ≠ "") ∧
    (∀ c ∈ flagColumns, record c = .int 0 ∨ record c = .int 1) ∧
    ∃ c ∈ flagColumns, record c = .int 1 := by
  simp only [audioColumns, bind_eq_ok_iff] at h
  obtain ⟨_, ⟨title, hTitleTag, ⟨⟩⟩, _, -, _, ⟨artist, hArtistTag, ⟨⟩⟩, _, -, _, -, _, -, _,
    ⟨album, hAlbumTag, ⟨⟩⟩, _, -, _, -, _, -, h⟩ := h
  have hDistinct : Category.audio.columns.Nodup := by decide
  rw [Category.columns, ← audioFlags_columns path] at hDistinct
  have hPut : ∀ {c : Column} {v : Value}, (c, v) ∈ _ → record c = v := fun hMem => by
    rw [← Except.ok.inj h]
    refine Record.putAll_of_mem ?_ hMem base
    rw [List.map_append, List.map_map]
    exact hDistinct
  have hFlag : ∀ c on, (c, on) ∈ audioFlags path → record c = .int (if on then 1 else 0) :=
    fun c on hMem => hPut (List.mem_append_right _ (List.mem_map.mpr ⟨(c, on), hMem, rfl⟩))
  refine ⟨?_, ?_, ?_⟩
  · simp only [List.forall_mem_cons, List.not_mem_nil, false_implies, implies_true, and_true]
    refine ⟨?_, ?_, ?_⟩
    · obtain ⟨s, hText, hs⟩ := orIfEmpty_tagText hTitleTag hu
      exact ⟨s, hPut (by simp [hTitle, hText]), hs⟩
    · obtain ⟨s, hText, hs⟩ := orIfEmpty_tagText hArtistTag (u := "<unknown>") (by decide)
      exact ⟨s, hPut (by simp [unknownName, hText]), hs⟩
    · obtain ⟨s, hText, hs⟩ := orIfEmpty_tagText hAlbumTag (u := "<unknown>") (by decide)
      exact ⟨s, hPut (by simp [unknownName, hText]), hs⟩
  · intro c hc
    obtain ⟨on, hMem⟩ := exists_audioFlag path hc
    rw [hFlag c on hMem]
    cases on <;> simp
  · obtain ⟨c, hMem⟩ := exists_audioFlag_set path
    refine ⟨c, ?_, hFlag c true hMem⟩
    rw [flagColumns, ← audioFlags_columns path]
    exact List.mem_map_of_mem hMem

/-! ## Videos -/

theorem exists_compactMillis (text : Option (List Char)) (otherwise : Int) :
    ∃ n, compactMillis text (some otherwise) = some n := by
  unfold compactMillis
  split
  · split
    · exact ⟨_, rfl⟩
    · exact ⟨otherwise, rfl⟩
  · exact ⟨otherwise, rfl⟩

theorem videoColumns_describes {s : Source} {general video : Tags} {record : Record}
    (h : videoColumns s general video = .ok record) :
    (∃ n, record .dateTaken = .int n) ∧ ∃ width height, record .width = .ofInt? width ∧
      record .height = .ofInt? height ∧ record .resolution = .ofText? (resolution? width height) := by
  simp only [videoColumns, bind_eq_ok_iff] at h
  obtain ⟨width, -, height, -, _, -, date, -, created, -, h⟩ := h
  rw [← Except.ok.inj h]
  obtain ⟨n, hTaken⟩ := exists_compactMillis date created
  have hDistinct : Category.video.columns.Nodup := by decide
  refine ⟨⟨n, ?_⟩, width, height, ?_, ?_, ?_⟩
  · rw [hTaken]
    exact Record.putAll_of_mem (by exact hDistinct) (by simp [Value.ofInt?]) _
  · exact Record.putAll_of_mem (by exact hDistinct) (by simp) _
  · exact Record.putAll_of_mem (by exact hDistinct) (by simp) _
  · exact Record.putAll_of_mem (by exact hDistinct) (by simp) _

/-! ## Pictures -/

theorem orientationDegrees_mem (code : Option Int) :
    orientationDegrees code ∈ [0, 90, 180, 270] := by
  unfold orientationDegrees
  split <;> simp

theorem sizeOf_eq_ok {pixels : List Value} {width height : Value}
    (h : sizeOf pixels = .ok (width, height)) : pixels = [width, height] := by
  unfold sizeOf at h
  split at h
  · cases h
    rfl
  · cases h
  · cases h

theorem decode_eq_ok {α : Type} {t : Tree} {s : Source} {part : Decoded → Part α} {value : α}
    (h : s.decode t part = .ok value) :
    ∃ d, t.media s.path = .ok d ∧ part d = .found value := by
  obtain ⟨d, hMedia, h⟩ := bind_eq_ok_iff.mp h
  refine ⟨d, mapError_eq_ok_iff.mp hMedia, ?_⟩
  split at h
  · next found hFound => rw [hFound, Except.ok.inj h]
  · cases h
  · cases h

theorem readPicture_integers {t : Tree} {s : Source} {tags : PictureTags} {width height : Value}
    (hPixels : ∀ d, t.media s.path = .ok d → d.HasIntegerPixels)
    (h : readPicture t s = .ok (tags, width, height)) :
    (∃ n, width = .int n) ∧ ∃ n, height = .int n := by
  simp only [readPicture, bind_eq_ok_iff] at h
  obtain ⟨_, -, found, -, w?, -, h?, -, h⟩ := h
  split at h
  · cases h
    exact ⟨⟨_, rfl⟩, _, rfl⟩
  · simp only [bind_eq_ok_iff] at h
    obtain ⟨pixels, hDecode, ⟨_, _⟩, hSize, h⟩ := h
    cases h
    obtain ⟨d, hMedia, hFound⟩ := decode_eq_ok hDecode
    have hIntegers := hPixels d hMedia pixels hFound
    rw [sizeOf_eq_ok (mapError_eq_ok_iff.mp hSize), List.forall_mem_cons,
      List.forall_mem_singleton] at hIntegers
    exact hIntegers

theorem imageColumns_describes {s : Source} {tags : PictureTags} {width height : Value}
    {extraction : Extraction} (h : imageColumns s tags width height = .ok extraction) :
    extraction.record .width = width ∧ extraction.record .height = height ∧
      ∃ degrees ∈ [0, 90, 180, 270], extraction.record .orientation = .int degrees := by
  simp only [imageColumns, bind_eq_ok_iff] at h
  obtain ⟨_, -, code, -, _, -, _, -, h⟩ := h
  rw [← Except.ok.inj h]
  have hDistinct : Category.image.columns.Nodup := by decide
  refine ⟨?_, ?_, orientationDegrees code, orientationDegrees_mem code, ?_⟩
  · exact Record.putAll_of_mem (by exact hDistinct) (by simp) _
  · exact Record.putAll_of_mem (by exact hDistinct) (by simp) _
  · exact Record.putAll_of_mem (by exact hDistinct) (by simp) _

/-! ## What every record has -/

theorem Source.record_of_notMem (s : Source) (category : Category) {c : Column}
    (h : c ∉ basicColumns) : s.record category c = .null := by
  have hOwn : [Column.mimeType, .mediaType] ⊆ basicColumns := by decide
  have hBasic : [Column.path, .volumeName, .size, .dateModified, .title] ⊆ basicColumns := by decide
  have hEmpty : Record.empty c = .null := by
    unfold Record.empty
    split
    · exact absurd (by decide) h
    · exact absurd (by decide) h
    · rfl
  rw [Source.record, Record.putAll_of_notMem fun hMem => h (hOwn hMem), Record.basic,
    Record.putAll_of_notMem fun hMem => h (hBasic hMem), hEmpty]

theorem categoryOf?_file {name : String} {category : Category}
    (h : categoryOf? name false = some category) :
    category.code ≠ 0 ∧ ∃ type, guessType? name = some type := by
  rw [categoryOf?] at h
  split at h
  · cases h
  · obtain ⟨type, hType, hCategory⟩ := Option.bind_eq_some_iff.mp h
    refine ⟨fun hCode => ?_, type, hType⟩
    have hDirectory : category = .directory := by
      cases category <;> simp [Category.code] at hCode ⊢
    rw [hDirectory] at hCategory
    unfold categoryOfType? at hCategory
    grind

theorem isDirectory_of_categoryOf? {name : String} {isDirectory : Bool} {category : Category}
    (h : categoryOf? name isDirectory = some category) (hOther : category ≠ .directory) :
    isDirectory = false := by
  cases isDirectory with
  | false => rfl
  | true =>
    rw [categoryOf?] at h
    split at h
    · cases h
    · exact absurd (Option.some.inj h).symm hOther

/-- The name of a file that has a category goes on in front of its last dot. -/
theorem beforeLastDot_ne_empty {name : String} {category : Category}
    (h : categoryOf? name false = some category) : Path.beforeLastDot name ≠ "" := by
  rw [categoryOf?] at h
  split at h
  · cases h
  · next hDot =>
    obtain ⟨type, hType, -⟩ := Option.bind_eq_some_iff.mp h
    unfold Path.beforeLastDot
    rw [guessType?, Path.afterLastDot?] at hType
    cases hCut : Text.cutLast? '.' name.toList with
    | none => simp [hCut] at hType
    | some cut =>
      obtain ⟨front, back⟩ := cut
      intro hEmpty
      have hFront : front = [] := by simpa using hEmpty
      rw [isDotName, Text.eq_of_cutLast? hCut, hFront] at hDot
      exact hDot rfl

/-! ## What is stored of a record -/

/-- A directory has no media type, and a file has the one that its name gives. -/
theorem mimeType_cases {a : Attributes} {volume : String} {category : Category} {record : Record}
    (hCategory : categoryOf? a.path.name a.isDirectory = some category)
    (h : record .mimeType = .ofText? (sourceOf a volume).type) :
    (a.isDirectory = true ∧ category = .directory ∧ record.cells .mimeType = .null) ∨
      (a.isDirectory = false ∧ categoryOf? a.path.name false = some category ∧
        ∃ type, guessType? a.path.name = some type ∧ record.cells .mimeType = .text type) := by
  cases hDirectory : a.isDirectory with
  | true =>
    rw [sourceOf, if_pos hDirectory] at h
    rw [hDirectory, categoryOf?] at hCategory
    split at hCategory
    · cases hCategory
    · exact .inl ⟨rfl, (Option.some.inj hCategory).symm, cells_null h⟩
  | false =>
    rw [hDirectory] at hCategory
    obtain ⟨-, type, hType⟩ := categoryOf?_file hCategory
    rw [sourceOf, hDirectory, if_neg Bool.false_ne_true, hType] at h
    exact .inr ⟨rfl, hCategory, type, hType, cells_text h rfl⟩

/-- A row at a path, of a category. -/
structure IsShapedAs (p : Path) (category : Category) (cells : Column → Cell) : Prop where
  path : cells .path = .text p.text
  isDrm : cells .isDrm = .integer 0
  size : ∃ n, cells .size = .integer n
  dateModified : ∃ n, cells .dateModified = .integer n
  mediaType : cells .mediaType = .integer category.code
  mimeType : category = .directory ∧ cells .mimeType = .null ∨
    categoryOf? p.name false = some category ∧
      ∃ type, guessType? p.name = some type ∧ cells .mimeType = .text type
  others : ∀ c ∉ basicColumns, c ∉ category.columns → cells c = .null
  described : category.Describes cells

section

variable {t : Tree} {a : Attributes} {volume : String} {record : Record}

theorem extract_describes {category : Category} {extraction : Extraction}
    (hCategory : categoryOf? a.path.name a.isDirectory = some category)
    (hPixels : ∀ d, t.media a.path = .ok d → d.HasIntegerPixels)
    (h : extract t category (sourceOf a volume) = .ok extraction)
    (hStorable : IsStorable extraction.record) :
    category.Describes extraction.record.cells := by
  cases category with
  | directory => trivial
  | playlist => trivial
  | audio =>
    have hFile : a.isDirectory = false := isDirectory_of_categoryOf? hCategory (by decide)
    rw [hFile] at hCategory
    obtain ⟨stream, hColumns⟩ := extractAudio_eq_ok h
    obtain ⟨hTexts, hFlags, c, hc, hSet⟩ :=
      audioColumns_describes hColumns rfl (beforeLastDot_ne_empty hCategory)
    have hText : ∀ c ∈ [Column.title, .artist, .album], c.affinity = .text := by decide
    have hInteger : ∀ c ∈ flagColumns, c.affinity = .integer := by decide
    refine ⟨?_, ?_, c, hc, hStorable.cells_int hSet (hInteger c hc)⟩
    · intro c hc
      obtain ⟨s, hValue, hs⟩ := hTexts c hc
      exact ⟨s, cells_text hValue (hText c hc), hs⟩
    · intro c hc
      apply (hFlags c hc).imp
      · exact fun hOff => hStorable.cells_int hOff (hInteger c hc)
      · exact fun hOn => hStorable.cells_int hOn (hInteger c hc)
  | video =>
    obtain ⟨general, video, hColumns⟩ := extractVideo_eq_ok h
    obtain ⟨⟨n, hTaken⟩, width, height, hWidth, hHeight, hResolution⟩ :=
      videoColumns_describes hColumns
    refine ⟨⟨n, hStorable.cells_int hTaken rfl⟩, ?_⟩
    cases width with
    | none => exact .inr ⟨.inl (cells_null hWidth), cells_null hResolution⟩
    | some w =>
      cases height with
      | none => exact .inr ⟨.inr (cells_null hHeight), cells_null hResolution⟩
      | some ht =>
        exact .inl ⟨w, ht, hStorable.cells_int hWidth rfl, hStorable.cells_int hHeight rfl,
          cells_text hResolution rfl⟩
  | image =>
    obtain ⟨tags, width, height, hPicture, hColumns⟩ := extractImage_eq_ok h
    obtain ⟨⟨w, rfl⟩, ht, rfl⟩ := readPicture_integers hPixels hPicture
    obtain ⟨hWidth, hHeight, degrees, hMem, hDegrees⟩ := imageColumns_describes hColumns
    exact ⟨⟨w, hStorable.cells_int hWidth rfl⟩, ⟨ht, hStorable.cells_int hHeight rfl⟩, degrees,
      hMem, hStorable.cells_int hDegrees rfl⟩

/-- A record that can be stored has the shape of the category that its path has by name and kind. -/
theorem isShapedAs_of_recordOf? (h : recordOf? t a volume = some record)
    (hPixels : ∀ d, t.media a.path = .ok d → d.HasIntegerPixels) (hStorable : IsStorable record) :
    ∃ category, categoryOf? a.path.name a.isDirectory = some category ∧
      IsShapedAs a.path category record.cells := by
  obtain ⟨category, extraction, hCategory, hExtract, rfl⟩ := exists_extract_of_recordOf? h
  refine ⟨category, hCategory, ?_⟩
  have hKnown : ∀ c ∈ knownColumns, extraction.record c = (sourceOf a volume).record category c :=
    fun c hc => extract_of_notMem hExtract (notMem_columns_of_known hc category)
  have hMimeType : extraction.record .mimeType = .ofText? (sourceOf a volume).type :=
    hKnown .mimeType (by decide)
  constructor
  · exact cells_text (hKnown .path (by decide)) rfl
  · exact hStorable.cells_int (hKnown .isDrm (by decide)) rfl
  · exact ⟨_, hStorable.cells_int (hKnown .size (by decide)) rfl⟩
  · exact ⟨_, hStorable.cells_int (hKnown .dateModified (by decide)) rfl⟩
  · exact hStorable.cells_int (hKnown .mediaType (by decide)) rfl
  · rcases mimeType_cases hCategory hMimeType with ⟨-, hNone⟩ | ⟨-, hFile⟩
    · exact .inl hNone
    · exact .inr hFile
  · intro c hBasic hColumns
    apply cells_null
    rw [extract_of_notMem hExtract hColumns, Source.record_of_notMem _ _ hBasic]
  · exact extract_describes hCategory hPixels hExtract hStorable

end

end Media

end MediaIndex
