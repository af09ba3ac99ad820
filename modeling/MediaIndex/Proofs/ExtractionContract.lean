import MediaIndex.Proofs.RecordShapes
import MediaIndex.Proofs.ValueConversions

/-!
# When an extraction keeps its contract

An extraction gives a record or fails with a failure of extraction, and values of optional columns
that are malformed cost no more than their column. Whatever a decoder fails with is stated so; what
is done with the values it reports is not, but for the size of a picture. So the contract is kept
exactly if those values convert.
-/

namespace MediaIndex.Media

open Catalog (Record)
open Disk (Tree)

/-- The extraction gives a record, or a failure that says so. -/
def IsStated {α : Type} (result : Extracted α) : Prop :=
  (∃ a, result = .ok a) ∨ ∃ f : Failure, result = .error f ∧ f.isExtraction = true

section
variable {α β : Type}

theorem isStated_ok (a : α) : IsStated (.ok a : Extracted α) := .inl ⟨a, rfl⟩

theorem isStated_error_iff {f : Failure} :
    IsStated (.error f : Extracted α) ↔ f.isExtraction = true := by
  simp [IsStated]

/-- Values that convert are all that is needed once the decoder is done. -/
theorem isStated_ofConverted_iff {result : Converted α} {f : α → Extracted β}
    (hRest : ∀ a, IsStated (f a)) :
    IsStated (Extracted.ofConverted result >>= f) ↔ Succeeds result := by
  cases result with
  | ok a => exact iff_of_true (hRest a) (succeeds_ok a)
  | error e => exact iff_of_false (isStated_error_iff.not.mpr Bool.false_ne_true) not_succeeds_error

/-- What a decoder fails with is stated as a failure of extraction, unless it was interrupted. -/
theorem isStated_stating_iff {result : Extracted α} {state : Failure → Failure}
    {f : α → Extracted β} (hState : ∀ g, (state g).isExtraction = true)
    (hQuiet : (result.stating state >>= f) ≠ .error (.disk .interrupted)) :
    IsStated (result.stating state >>= f) ↔ ∀ a, result = .ok a → IsStated (f a) := by
  cases result with
  | ok a => simp [Extracted.stating, Except.mapError, bind, Except.bind]
  | error g =>
    have hOther : g.isInterrupt = false := by
      refine Bool.eq_false_iff.mpr fun hInterrupt => hQuiet ?_
      obtain rfl : g = .disk .interrupted := of_decide_eq_true hInterrupt
      rfl
    refine iff_of_true ?_ nofun
    simp only [Extracted.stating, Except.mapError, hOther, Bool.false_eq_true, if_false]
    exact isStated_error_iff.mpr (hState g)

end

/-! ## What has to convert -/

/-- What is read of the tags of an audio file. -/
def audioKeys : List String :=
  ["title", "artist", "albumartist", "compilation", "composer", "album", "tracknumber", "date",
    "genre"]

/-- The moment that the shown value of a date field writes. -/
def shownMoment? (general : Tags) (field : String) : Option Moment :=
  if (general.value field).isGiven then
    (general.value field).shown.toOption.bind fun text => dateFieldMoment? text.toList
  else none

/-- The fields up to the first that can be read can be shown. -/
def DatesShown (general : Tags) (fields : List String) : Prop :=
  ∀ before field after, fields = before ++ field :: after →
    (∀ earlier ∈ before, shownMoment? general earlier = none) →
      (general.value field).isGiven = true → (general.value field).IsShowable

structure AudioConverts (stream : AudioStream) : Prop where
  tags : ∀ key ∈ audioKeys,
    ¬ ((stream.tags.value key).isGiven = true ∧ (stream.tags.value key).LacksText)
  length : ¬ (stream.length.isGiven = true ∧ stream.length.LacksMillis)

structure VideoConverts (s : Source) (general video : Tags) : Prop where
  width : ¬ (video.value "width").HasNoWhole
  height : ¬ (video.value "height").HasNoWhole
  duration : ¬ (general.value "duration").HasNoWhole
  dates : DatesShown general dateFields
  created : ∃ y, (Double.finite s.attributes.created).mul Value.thousand = .finite y

structure ImageConverts (tags : PictureTags) (width height : Value) : Prop where
  width : width.IsShowable
  height : height.IsShowable
  orientation : ∀ tag values, tags.lookup "Image Orientation" = some tag →
    tag.values = some values → values.isGiven = true → ¬ values.HasNoFirstInteger
  /-- The time of a position is read only if its day can be read. -/
  position : ∀ day stamp m, tags.lookup "GPS GPSDate" = some day →
    tags.lookup "GPS GPSTimeStamp" = some stamp →
      Pattern.colonDay.moment? (Text.trim day.text).toList = some m →
        ∃ values, stamp.values = some values ∧ ¬ values.HasNoClock

theorem forall_mem_audioKeys_iff {p : String → Prop} : (∀ key ∈ audioKeys, p key) ↔
    p "title" ∧ p "artist" ∧ p "albumartist" ∧ p "compilation" ∧ p "composer" ∧ p "album" ∧
      p "tracknumber" ∧ p "date" ∧ p "genre" := by
  simp only [audioKeys, List.forall_mem_cons, List.not_mem_nil, false_implies, implies_true, and_true]

theorem succeeds_audioColumns_iff {base : Catalog.Record} {path : String} {stream : AudioStream} :
    Succeeds (audioColumns base path stream) ↔ AudioConverts stream := by
  have hTag : ∀ key,
      Succeeds (tagText stream.tags key >>= fun found => pure (Value.ofText? found)) ↔
        ¬ ((stream.tags.value key).isGiven = true ∧ (stream.tags.value key).LacksText) :=
    fun key => succeeds_bind_pure.trans succeeds_tagText_iff
  simp only [audioColumns]
  rw [succeeds_bind_and fun title => succeeds_bind_and fun duration => succeeds_bind_and fun artist =>
    succeeds_bind_and fun albumArtist => succeeds_bind_and fun compilation =>
    succeeds_bind_and fun composer => succeeds_bind_and fun album => succeeds_bind_and fun track =>
    succeeds_bind_and fun year => succeeds_bind_pure]
  simp only [hTag, succeeds_milliseconds_iff]
  constructor
  · rintro ⟨hTitle, hLength, hOthers⟩
    exact ⟨forall_mem_audioKeys_iff.mpr ⟨hTitle, hOthers⟩, hLength⟩
  · intro h
    obtain ⟨hTitle, hOthers⟩ := forall_mem_audioKeys_iff.mp h.tags
    exact ⟨hTitle, h.length, hOthers⟩

theorem datesShown_cons_iff {general : Tags} {field : String} {fields : List String} :
    DatesShown general (field :: fields) ↔
      ((general.value field).isGiven = true → (general.value field).IsShowable) ∧
        (shownMoment? general field = none → DatesShown general fields) := by
  constructor
  · intro h
    refine ⟨h [] field fields rfl nofun, ?_⟩
    rintro hNone before other after rfl hBefore
    exact h (field :: before) other after rfl (List.forall_mem_cons.mpr ⟨hNone, hBefore⟩)
  · rintro ⟨hField, hFields⟩ before other after hSplit hBefore
    cases before with
    | nil =>
      obtain ⟨rfl, rfl⟩ := List.cons.inj hSplit
      exact hField
    | cons first before =>
      obtain ⟨rfl, rfl⟩ := List.cons.inj hSplit
      obtain ⟨hFirst, hBefore⟩ := List.forall_mem_cons.mp hBefore
      exact hFields hFirst before other after rfl hBefore

theorem succeeds_dateMoment?_iff {general : Tags} {fields : List String} :
    Succeeds (dateMoment? general fields) ↔ DatesShown general fields := by
  induction fields with
  | nil =>
    refine iff_of_true (succeeds_ok _) fun before field after hSplit => ?_
    simp at hSplit
  | cons field fields ih =>
    rw [datesShown_cons_iff, ← ih, dateMoment?, shownMoment?]
    cases hGiven : (general.value field).isGiven with
    | false => simp
    | true =>
      rw [← Value.succeeds_shown_iff]
      cases hShown : (general.value field).shown with
      | error e => simp [bind, Except.bind]
      | ok text =>
        simp only [Bool.not_true, Bool.false_eq_true, if_false, if_true, bind, Except.bind,
          Except.toOption, Option.bind_some, succeeds_ok, imp_self, true_and]
        cases dateFieldMoment? text.toList <;> simp

theorem succeeds_createdMillis_iff {s : Source} : Succeeds (createdMillis s) ↔
    ∃ y, (Double.finite s.attributes.created).mul Value.thousand = .finite y := by
  rw [createdMillis, Value.integerToDouble_thousand, succeeds_bind_iff]
  simp only [Except.ok.injEq, exists_eq_left', Value.succeeds_truncateDouble_iff]

theorem succeeds_videoColumns_iff {s : Source} {general video : Tags} :
    Succeeds (videoColumns s general video) ↔ VideoConverts s general video := by
  have hDates : Succeeds (compactDate? general) ↔ Succeeds (dateMoment? general dateFields) :=
    succeeds_bind_pure
  unfold videoColumns
  rw [succeeds_bind_and fun width => succeeds_bind_and fun height => succeeds_bind_and fun duration =>
      succeeds_bind_and fun date => succeeds_bind_pure, Value.succeeds_wholeNumber_iff,
    Value.succeeds_wholeNumber_iff, Value.succeeds_wholeNumber_iff, hDates, succeeds_dateMoment?_iff,
    succeeds_createdMillis_iff]
  constructor
  · rintro ⟨hWidth, hHeight, hDuration, hDate, hCreated⟩
    exact ⟨hWidth, hHeight, hDuration, hDate, hCreated⟩
  · intro h
    exact ⟨h.width, h.height, h.duration, h.dates, h.created⟩

theorem tagInteger?_singleton {tags : PictureTags} {name : String} {values : Value}
    (h : ((tags.lookup name).bind (·.values)).getD .null = values) :
    tagInteger? tags [name] =
      if values.isGiven then Value.unlessRefused (values.first >>= Value.toInteger) else .ok none := by
  subst h
  rw [tagInteger?]
  cases (((tags.lookup name).bind (·.values)).getD .null).isGiven with
  | false => rfl
  | true =>
    rcases Value.unlessRefused (_ >>= Value.toInteger) with e | _ | n
    · rfl
    · rfl
    · rfl

theorem succeeds_orientation_iff {tags : PictureTags} :
    Succeeds (tagInteger? tags ["Image Orientation"]) ↔
      ∀ tag values, tags.lookup "Image Orientation" = some tag → tag.values = some values →
        values.isGiven = true → ¬ values.HasNoFirstInteger := by
  have hSingle : ∀ values : Value, Succeeds (if values.isGiven then
      Value.unlessRefused (values.first >>= Value.toInteger) else .ok none) ↔
        (values.isGiven = true → ¬ values.HasNoFirstInteger) := by
    intro values
    rw [← Value.escapes_firstInteger_iff, ← succeeds_unlessRefused_iff]
    cases values.isGiven with
    | false => exact iff_of_true (succeeds_ok none) fun hGiven => absurd hGiven Bool.false_ne_true
    | true => rw [if_pos rfl, forall_prop_of_true rfl]
  rw [tagInteger?_singleton rfl]
  refine (hSingle _).trans ?_
  constructor
  · intro h tag values hTag hValues
    rw [hTag, Option.bind_some, hValues] at h
    exact h
  · intro h hGiven
    cases hTag : tags.lookup "Image Orientation" with
    | none =>
      rw [hTag] at hGiven
      cases hGiven
    | some tag =>
      cases hValues : tag.values with
      | none =>
        rw [hTag, Option.bind_some, hValues] at hGiven
        cases hGiven
      | some values =>
        rw [hTag, Option.bind_some, hValues] at hGiven
        rw [Option.bind_some, hValues]
        exact h tag values hTag hValues hGiven

theorem succeeds_positionMillis?_iff {tags : PictureTags} : Succeeds (positionMillis? tags) ↔
    ∀ day stamp m, tags.lookup "GPS GPSDate" = some day →
      tags.lookup "GPS GPSTimeStamp" = some stamp →
        Pattern.colonDay.moment? (Text.trim day.text).toList = some m →
          ∃ values, stamp.values = some values ∧ ¬ values.HasNoClock := by
  unfold positionMillis?
  split
  · next day stamp hDay hStamp =>
    have hBoth : (∀ day' stamp' m, tags.lookup "GPS GPSDate" = some day' →
        tags.lookup "GPS GPSTimeStamp" = some stamp' →
          Pattern.colonDay.moment? (Text.trim day'.text).toList = some m →
            ∃ values, stamp'.values = some values ∧ ¬ values.HasNoClock) ↔
        ∀ m, Pattern.colonDay.moment? (Text.trim day.text).toList = some m →
          ∃ values, stamp.values = some values ∧ ¬ values.HasNoClock := by
      constructor
      · exact fun h m => h day stamp m hDay hStamp
      · intro h day' stamp' m hDay' hStamp'
        obtain rfl := Option.some.inj (hDay.symm.trans hDay')
        obtain rfl := Option.some.inj (hStamp.symm.trans hStamp')
        exact h m
    rw [hBoth]
    split
    · next hNone => simp [hNone]
    · next m hMoment hValues => simp [hMoment, hValues]
    · next m values hMoment hValues =>
      refine succeeds_bind_pure.trans ?_
      rw [succeeds_unlessRefused_iff, escapes_stampTime?_iff]
      simp [hMoment, hValues]
  · next hMissing =>
    refine iff_of_true (succeeds_ok _) fun day stamp m hDay hStamp => absurd hStamp ?_
    exact hMissing day stamp hDay

theorem succeeds_imageColumns_iff {s : Source} {tags : PictureTags} {width height : Value} :
    Succeeds (imageColumns s tags width height) ↔ ImageConverts tags width height := by
  unfold imageColumns
  rw [succeeds_bind_and fun position => succeeds_bind_and fun code => succeeds_bind_and fun first =>
      succeeds_bind_pure, succeeds_positionMillis?_iff, succeeds_orientation_iff,
    Value.succeeds_shown_iff, Value.succeeds_shown_iff]
  constructor
  · rintro ⟨hPosition, hOrientation, hWidth, hHeight⟩
    exact ⟨hWidth, hHeight, hOrientation, hPosition⟩
  · intro h
    exact ⟨h.position, h.orientation, h.width, h.height⟩

/-! ## What malformed values fall back to -/

/-- The value gives no integer by way of a double. -/
def Value.IsMalformed (v : Value) : Prop := ¬ Succeeds (v.toDouble >>= Value.truncateDouble)

structure VideoFallsBack (s : Source) (general video : Tags) (record : Record) : Prop where
  width : (video.value "width").IsMalformed → record .width = .null
  height : (video.value "height").IsMalformed → record .height = .null
  duration : (general.value "duration").IsMalformed → record .duration = .null
  date : (∀ field ∈ dateFields, shownMoment? general field = none) →
    ∃ millis, createdMillis s = .ok millis ∧ record .dateTaken = .int millis

/-- The first value of the tag gives no integer, or there is none. -/
def TagUnread (tags : PictureTags) (name : String) : Prop :=
  ∀ tag values n, tags.lookup name = some tag → tag.values = some values →
    values.first >>= Value.toInteger ≠ .ok n

/-- The position tags have no day that can be read with a time of day. -/
def PositionUnread (tags : PictureTags) : Prop :=
  ∀ day stamp m values time, tags.lookup "GPS GPSDate" = some day →
    tags.lookup "GPS GPSTimeStamp" = some stamp →
      Pattern.colonDay.moment? (Text.trim day.text).toList = some m →
        stamp.values = some values → stampTime? values ≠ .ok (some time)

structure ImageFallsBack (t : Tree) (s : Source) (tags : PictureTags) (record : Record) : Prop where
  size : (∀ name ∈ ["EXIF ExifImageWidth", "Image ImageWidth"], TagUnread tags name) ∨
      (∀ name ∈ ["EXIF ExifImageLength", "Image ImageLength"], TagUnread tags name) →
    s.decode t (·.pixels) = .ok [record .width, record .height]
  orientation : TagUnread tags "Image Orientation" → record .orientation = .int 0
  position : PositionUnread tags → record .dateTaken = .ofInt? (dateTagMillis? tags)
  date : PositionUnread tags → (∀ name ∈ dateTags, ∀ tag, tags.lookup name = some tag →
    dateTagMoment? tag.text = none) → record .dateTaken = .null

theorem Value.eq_ok_of_unlessRefused {α : Type} {result : Converted α} {a : α}
    (h : Value.unlessRefused result = .ok (some a)) : result = .ok a := by
  cases result with
  | ok b => exact congrArg Except.ok (Option.some.inj (Except.ok.inj h))
  | error e =>
    rw [Value.unlessRefused] at h
    split at h
    · cases h
    · cases h

theorem wholeNumber_of_isMalformed {v : Value} {n : Option Int} (hNumber : v.wholeNumber = .ok n)
    (hMalformed : v.IsMalformed) : n = none := by
  unfold Value.wholeNumber at hNumber
  split at hNumber
  · exact (Except.ok.inj hNumber).symm
  · cases n with
    | none => rfl
    | some m => exact absurd ⟨m, Value.eq_ok_of_unlessRefused hNumber⟩ hMalformed

theorem dateMoment?_of_unread {general : Tags} {fields : List String} {found : Option Moment}
    (hFound : dateMoment? general fields = .ok found)
    (hUnread : ∀ field ∈ fields, shownMoment? general field = none) : found = none := by
  induction fields with
  | nil => exact (Except.ok.inj hFound).symm
  | cons field fields ih =>
    obtain ⟨hField, hFields⟩ := List.forall_mem_cons.mp hUnread
    rw [dateMoment?] at hFound
    rw [shownMoment?] at hField
    cases hGiven : (general.value field).isGiven with
    | false =>
      rw [hGiven] at hFound
      exact ih hFound hFields
    | true =>
      rw [hGiven] at hFound hField
      obtain ⟨text, hText, hFound⟩ := bind_eq_ok_iff.mp hFound
      rw [hText, if_pos rfl] at hField
      have hNone : dateFieldMoment? text.toList = none := hField
      rw [hNone] at hFound
      exact ih hFound hFields

theorem videoColumns_fallsBack {s : Source} {general video : Tags} {record : Record}
    (h : videoColumns s general video = .ok record) : VideoFallsBack s general video record := by
  simp only [videoColumns, bind_eq_ok_iff] at h
  obtain ⟨width, hWidth, height, hHeight, duration, hDuration, date, hDate, created, hCreated,
    h⟩ := h
  obtain rfl := Except.ok.inj h
  refine ⟨fun hMalformed => ?_, fun hMalformed => ?_, fun hMalformed => ?_, fun hUnread => ?_⟩
  · obtain rfl := wholeNumber_of_isMalformed hWidth hMalformed
    rfl
  · obtain rfl := wholeNumber_of_isMalformed hHeight hMalformed
    rfl
  · obtain rfl := wholeNumber_of_isMalformed hDuration hMalformed
    rfl
  · obtain ⟨found, hFound, hDate⟩ := bind_eq_ok_iff.mp hDate
    obtain rfl := dateMoment?_of_unread hFound hUnread
    obtain rfl := Except.ok.inj hDate
    exact ⟨created, hCreated, rfl⟩

theorem tagInteger?_of_unread {tags : PictureTags} {names : List String} {code : Option Int}
    (hCode : tagInteger? tags names = .ok code) (hUnread : ∀ name ∈ names, TagUnread tags name) :
    code = none := by
  induction names with
  | nil => exact (Except.ok.inj hCode).symm
  | cons name names ih =>
    obtain ⟨hName, hNames⟩ := List.forall_mem_cons.mp hUnread
    simp only [tagInteger?] at hCode
    split at hCode
    · exact ih hCode hNames
    · next hGiven =>
      obtain ⟨tag, hTag, values, hValues⟩ : ∃ tag, tags.lookup name = some tag ∧
          ∃ values, tag.values = some values := by
        cases hTag : tags.lookup name with
        | none => exact absurd (by rw [hTag]; rfl) hGiven
        | some tag =>
          cases hValues : tag.values with
          | none => exact absurd (by rw [hTag, Option.bind_some, hValues]; rfl) hGiven
          | some values => exact ⟨tag, rfl, values, hValues⟩
      rw [hTag, Option.bind_some, hValues, Option.getD_some] at hCode
      obtain ⟨found, hFound, hCode⟩ := bind_eq_ok_iff.mp hCode
      cases found with
      | none => exact ih hCode hNames
      | some n => exact absurd (Value.eq_ok_of_unlessRefused hFound) (hName tag values n hTag hValues)

theorem positionMillis?_of_unread {tags : PictureTags} {position : Option Int}
    (hPosition : positionMillis? tags = .ok position) (hUnread : PositionUnread tags) :
    position = none := by
  unfold positionMillis? at hPosition
  split at hPosition
  · next day stamp hDay hStamp =>
    split at hPosition
    · exact (Except.ok.inj hPosition).symm
    · cases hPosition
    · next m values hMoment hValues =>
      obtain ⟨found, hFound, hPosition⟩ := bind_eq_ok_iff.mp hPosition
      obtain rfl := Except.ok.inj hPosition
      rcases found with _ | _ | time
      · rfl
      · rfl
      · exact absurd (Value.eq_ok_of_unlessRefused hFound)
          (hUnread day stamp m values time hDay hStamp hMoment hValues)
  · exact (Except.ok.inj hPosition).symm

theorem dateTagMillis?_of_unread {tags : PictureTags}
    (hUnread : ∀ name ∈ dateTags, ∀ tag, tags.lookup name = some tag →
      dateTagMoment? tag.text = none) : dateTagMillis? tags = none := by
  refine List.findSome?_eq_none_iff.mpr fun name hName => ?_
  cases hTag : tags.lookup name with
  | none => rfl
  | some tag => rw [Option.bind_some, hUnread name hName tag hTag, Option.map_none]

/-- Tags that do not give the size leave it to the decoder of the pixels. -/
theorem readPicture_size {t : Tree} {s : Source} {tags : PictureTags} {width height : Value}
    (h : readPicture t s = .ok (tags, width, height))
    (hUnread : (∀ name ∈ ["EXIF ExifImageWidth", "Image ImageWidth"], TagUnread tags name) ∨
      (∀ name ∈ ["EXIF ExifImageLength", "Image ImageLength"], TagUnread tags name)) :
    s.decode t (·.pixels) = .ok [width, height] := by
  simp only [readPicture, bind_eq_ok_iff] at h
  obtain ⟨_, -, tags', -, w, hWidth, l, hLength, h⟩ := h
  split at h
  · obtain ⟨rfl, -⟩ := Prod.mk.inj (Except.ok.inj h)
    rcases hUnread with hUnread | hUnread
    · cases tagInteger?_of_unread (mapError_eq_ok_iff.mp hWidth) hUnread
    · cases tagInteger?_of_unread (mapError_eq_ok_iff.mp hLength) hUnread
  · obtain ⟨pixels, hPixels, h⟩ := bind_eq_ok_iff.mp h
    obtain ⟨size, hSize, h⟩ := bind_eq_ok_iff.mp h
    obtain ⟨-, rfl⟩ := Prod.mk.inj (Except.ok.inj h)
    rwa [sizeOf_eq_ok (mapError_eq_ok_iff.mp hSize)] at hPixels

theorem imageColumns_fallsBack {t : Tree} {s : Source} {tags : PictureTags} {width height : Value}
    {extraction : Extraction} (hPicture : readPicture t s = .ok (tags, width, height))
    (hColumns : imageColumns s tags width height = .ok extraction) :
    ImageFallsBack t s tags extraction.record := by
  simp only [imageColumns, bind_eq_ok_iff] at hColumns
  obtain ⟨position, hPosition, code, hCode, _, -, _, -, hColumns⟩ := hColumns
  obtain rfl := Except.ok.inj hColumns
  refine ⟨readPicture_size hPicture, fun hUnread => ?_, fun hUnread => ?_, fun hUnread hDates => ?_⟩
  · obtain rfl := tagInteger?_of_unread hCode (List.forall_mem_singleton.mpr hUnread)
    rfl
  · obtain rfl := positionMillis?_of_unread hPosition hUnread
    rfl
  · obtain rfl := positionMillis?_of_unread hPosition hUnread
    change Value.ofInt? (dateTagMillis? tags) = .null
    rw [dateTagMillis?_of_unread hDates]
    rfl

/-! ## The contract -/

/-- What is done with the values that a decoder reported converts. -/
def Converts (t : Tree) (s : Source) : Category → Prop
  | .directory | .playlist => True
  | .audio => ∀ stream, s.decode t (·.audio) = .ok (some stream) → AudioConverts stream
  | .video => ∀ tracks general video, s.decode t (·.tracks) = .ok tracks →
    trackOf? tracks "General" = some general → trackOf? tracks "Video" = some video →
      VideoConverts s general video
  | .image => ∀ tags width height, readPicture t s = .ok (tags, width, height) →
    ImageConverts tags width height

/-- Malformed values of optional columns cost no more than their column. -/
def FallsBack (t : Tree) (s : Source) (record : Record) : Category → Prop
  | .directory | .playlist | .audio => True
  | .video => ∃ tracks general video, s.decode t (·.tracks) = .ok tracks ∧
    trackOf? tracks "General" = some general ∧ trackOf? tracks "Video" = some video ∧
      VideoFallsBack s general video record
  | .image => ∃ tags width height, readPicture t s = .ok (tags, width, height) ∧
    ImageFallsBack t s tags record

structure KeepsContract (t : Tree) (s : Source) (category : Category) : Prop where
  stated : IsStated (extract t category s)
  fallsBack : ∀ extraction, extract t category s = .ok extraction →
    FallsBack t s extraction.record category

section
variable {t : Tree} {s : Source}

theorem isStated_extractAudio_iff (hQuiet : extractAudio t s ≠ .error (.disk .interrupted)) :
    IsStated (extractAudio t s) ↔ Converts t s .audio := by
  refine (isStated_stating_iff (fun _ => rfl) hQuiet).trans ?_
  constructor
  · intro h stream hStream
    exact succeeds_audioColumns_iff.mp
      ((isStated_ofConverted_iff fun _ => isStated_ok _).mp (h _ hStream))
  · intro h found hFound
    cases found with
    | none => exact isStated_error_iff.mpr rfl
    | some stream =>
      exact (isStated_ofConverted_iff fun _ => isStated_ok _).mpr
        (succeeds_audioColumns_iff.mpr (h stream hFound))

theorem isStated_extractVideo_iff (hQuiet : extractVideo t s ≠ .error (.disk .interrupted)) :
    IsStated (extractVideo t s) ↔ Converts t s .video := by
  refine (isStated_stating_iff (fun _ => rfl) hQuiet).trans ?_
  constructor
  · intro h tracks general video hTracks hGeneral hVideo
    have hHere := h tracks hTracks
    rw [hGeneral, hVideo] at hHere
    exact succeeds_videoColumns_iff.mp ((isStated_ofConverted_iff fun _ => isStated_ok _).mp hHere)
  · intro h tracks hTracks
    split
    · next general video hGeneral hVideo =>
      exact (isStated_ofConverted_iff fun _ => isStated_ok _).mpr
        (succeeds_videoColumns_iff.mpr (h tracks general video hTracks hGeneral hVideo))
    · exact isStated_error_iff.mpr rfl

theorem isStated_extractImage_iff (hQuiet : extractImage t s ≠ .error (.disk .interrupted)) :
    IsStated (extractImage t s) ↔ Converts t s .image := by
  have hColumns : ∀ tags width height,
      IsStated (Extracted.ofConverted (imageColumns s tags width height)) ↔
        ImageConverts tags width height := by
    intro tags width height
    rw [← bind_pure (Extracted.ofConverted _)]
    exact (isStated_ofConverted_iff isStated_ok).trans succeeds_imageColumns_iff
  refine (isStated_stating_iff (fun _ => rfl) hQuiet).trans ?_
  constructor
  · exact fun h tags width height hPicture => (hColumns tags width height).mp (h _ hPicture)
  · rintro h ⟨tags, width, height⟩ hPicture
    exact (hColumns tags width height).mpr (h tags width height hPicture)

theorem fallsBack_of_extract {category : Category} {extraction : Extraction}
    (h : extract t category s = .ok extraction) : FallsBack t s extraction.record category := by
  cases category with
  | directory | playlist | audio => trivial
  | video =>
    simp only [extract, extractVideo, bind_eq_ok_iff] at h
    obtain ⟨tracks, hTracks, h⟩ := h
    split at h
    · next general video hGeneral hVideo =>
      obtain ⟨record, hRecord, h⟩ := bind_eq_ok_iff.mp h
      obtain rfl := Except.ok.inj h
      exact ⟨tracks, general, video, mapError_eq_ok_iff.mp hTracks, hGeneral, hVideo,
        videoColumns_fallsBack (mapError_eq_ok_iff.mp hRecord)⟩
    · cases h
  | image =>
    obtain ⟨tags, width, height, hPicture, hRecord⟩ := extractImage_eq_ok h
    exact ⟨tags, width, height, hPicture, imageColumns_fallsBack hPicture hRecord⟩

/-- An extraction that is not interrupted keeps its contract exactly if what the decoders reported
converts. -/
theorem keepsContract_iff {category : Category}
    (hQuiet : extract t category s ≠ .error (.disk .interrupted)) :
    KeepsContract t s category ↔ Converts t s category := by
  have hStated : IsStated (extract t category s) ↔ Converts t s category := by
    cases category with
    | directory | playlist => exact iff_of_true (isStated_ok _) trivial
    | audio => exact isStated_extractAudio_iff hQuiet
    | video => exact isStated_extractVideo_iff hQuiet
    | image => exact isStated_extractImage_iff hQuiet
  rw [← hStated]
  exact ⟨fun h => h.stated, fun h => ⟨h, fun _ => fallsBack_of_extract⟩⟩

end

def endlessTracks : List Tags :=
  [[("track_type", .text "General"), ("duration", .float (.infinite false))],
    [("track_type", .text "Video")]]

def endlessTree : Tree :=
  ⟨.plain .directory, [(["v.mp4"], { Disk.Node.plain .file with
    media := { Decoded.nothing with tracks := .found endlessTracks } })]⟩

def endlessSource : Source :=
  ⟨⟨⟨.root, ["v.mp4"]⟩, 0, Disk.Node.defaultTime, Disk.Node.defaultTime, false⟩,
    some "video/mp4", "/"⟩

/-- A video that lasts forever ends its extraction by a failure of another kind. -/
theorem keepsContract_iff_endless :
    extract endlessTree .video endlessSource ≠ .error (.disk .interrupted) ∧
      ¬ KeepsContract endlessTree endlessSource .video := by
  have hMedia : endlessTree.media endlessSource.path =
      .ok { Decoded.nothing with tracks := .found endlessTracks } := by
    have hPlace : endlessTree.place? endlessSource.path.names = .ok ["v.mp4"] :=
      Disk.Tree.place?_singleton rfl rfl
    rw [Disk.Tree.media, Disk.Tree.locate, hPlace]
    rfl
  have hTracks : endlessSource.decode endlessTree (·.tracks) = .ok endlessTracks := by
    rw [Source.decode, hMedia]
    rfl
  have hFails : extract endlessTree .video endlessSource =
      .error (.conversion .infinityToInteger) := by
    rw [extract, extractVideo, hTracks]
    rfl
  have hQuiet : extract endlessTree .video endlessSource ≠ .error (.disk .interrupted) := by
    intro hSame
    cases hFails.symm.trans hSame
  exact ⟨hQuiet, fun hKeeps =>
    ((keepsContract_iff hQuiet).mp hKeeps _ _ _ hTracks rfl rfl).duration ⟨false, rfl⟩⟩

end MediaIndex.Media
