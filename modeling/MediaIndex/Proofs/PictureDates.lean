import MediaIndex.Proofs.ExtractionContract

/-!
# The date of a picture

A picture is dated by its position tags: the day in universal time and a stamp of three values, each
cut to a whole number. Where these give no moment the first date tag that can be read dates it, and
otherwise nothing does. The other columns do not depend on these tags. A picture is lost through
them only where the day can be read and the stamp has no values, or numbers that a conversion fails
on instead of refusing them; what any date tag holds never costs the picture.
-/

namespace MediaIndex.Media

open Catalog (Record)
open Disk (Tree)

/-! ## The time of a stamp -/

/-- The values are three, and cut to whole numbers they are the time of day. -/
def IsClock (values : Value) (time : TimeOfDay) : Prop :=
  ∃ h m s : Value, values.parts = .ok [h, m, s] ∧
    h.ratioAsDouble >>= Value.truncateDouble = .ok (time.hour : Int) ∧
    m.ratioAsDouble >>= Value.truncateDouble = .ok (time.minute : Int) ∧
    s.ratioAsDouble >>= Value.truncateDouble = .ok (time.second : Int)

theorem nativeInteger_eq_ok {n k : Int} (h : nativeInteger n = .ok k) : k = n := by
  unfold nativeInteger at h
  split at h
  · cases h
  · split at h
    · cases h
    · split at h
      · cases h
      · exact (Except.ok.inj h).symm

theorem clockTime?_eq_some_iff {hour minute second : Int} {time : TimeOfDay} :
    clockTime? hour minute second = some time ↔
      hour = time.hour ∧ minute = time.minute ∧ second = time.second := by
  unfold clockTime? TimeOfDay.of?
  constructor
  · intro h
    split at h
    · next hSigns =>
      split at h
      · rw [← Option.some.inj h]
        exact ⟨(Int.toNat_of_nonneg hSigns.1).symm, (Int.toNat_of_nonneg hSigns.2.1).symm,
          (Int.toNat_of_nonneg hSigns.2.2).symm⟩
      · cases h
    · cases h
  · rintro ⟨rfl, rfl, rfl⟩
    rw [if_pos (by omega), dif_pos ⟨time.hour_lt, time.minute_lt, time.second_lt⟩]
    rfl

theorem stampTime?_of_isClock {values : Value} {time : TimeOfDay} (h : IsClock values time) :
    stampTime? values = .ok (some time) := by
  obtain ⟨h, m, s, hParts, hHour, hMinute, hSecond⟩ := h
  obtain ⟨x, hx, hHour⟩ := bind_eq_ok_iff.mp hHour
  obtain ⟨y, hy, hMinute⟩ := bind_eq_ok_iff.mp hMinute
  obtain ⟨z, hz, hSecond⟩ := bind_eq_ok_iff.mp hSecond
  have hNumbers : [h, m, s].mapM Value.ratioAsDouble = .ok [x, y, z] :=
    mapM_eq_ok_iff.mpr (.cons hx (.cons hy (.cons hz .nil)))
  have hNative : ∀ n : Nat, n < 60 → nativeInteger n = .ok (n : Int) := fun n hn =>
    Value.nativeInteger_of_isNative ⟨by omega, by omega⟩
  have hHourNative := hNative time.hour (Nat.lt_trans time.hour_lt (by decide))
  have hTime : clockTime? time.hour time.minute time.second = some time :=
    clockTime?_eq_some_iff.mpr ⟨rfl, rfl, rfl⟩
  rw [stampTime?, hParts]
  change ([h, m, s].mapM Value.ratioAsDouble >>= _) = _
  rw [hNumbers]
  simp only [bind, Except.bind, hHour, hMinute, hSecond, hHourNative, hNative _ time.minute_lt,
    hNative _ time.second_lt, hTime, pure, Except.pure]

theorem isClock_of_stampTime? {values : Value} {time : TimeOfDay}
    (h : stampTime? values = .ok (some time)) : IsClock values time := by
  obtain ⟨parts, hParts, h⟩ := bind_eq_ok_iff.mp h
  obtain ⟨numbers, hNumbers, h⟩ := bind_eq_ok_iff.mp h
  have hEach := mapM_eq_ok_iff.mp hNumbers
  split at h
  · next x y z =>
    obtain ⟨hour, hHour, h⟩ := bind_eq_ok_iff.mp h
    obtain ⟨minute, hMinute, h⟩ := bind_eq_ok_iff.mp h
    obtain ⟨second, hSecond, h⟩ := bind_eq_ok_iff.mp h
    obtain ⟨_, hHour', h⟩ := bind_eq_ok_iff.mp h
    obtain ⟨_, hMinute', h⟩ := bind_eq_ok_iff.mp h
    obtain ⟨_, hSecond', h⟩ := bind_eq_ok_iff.mp h
    rw [nativeInteger_eq_ok hHour', nativeInteger_eq_ok hMinute',
      nativeInteger_eq_ok hSecond'] at h
    obtain ⟨rfl, rfl, rfl⟩ := clockTime?_eq_some_iff.mp (Except.ok.inj h)
    have hThree : parts.length = 3 := by
      have hLength := hEach.length_eq
      rw [List.length_take] at hLength
      simp only [List.length_cons, List.length_nil] at hLength
      omega
    obtain ⟨a, b, c, rfl⟩ := List.length_eq_three.mp hThree
    obtain ⟨ha, hEach⟩ := List.forall₂_cons.mp hEach
    obtain ⟨hb, hEach⟩ := List.forall₂_cons.mp hEach
    obtain ⟨hc, -⟩ := List.forall₂_cons.mp hEach
    exact ⟨a, b, c, hParts, bind_eq_ok_iff.mpr ⟨x, ha, hHour⟩, bind_eq_ok_iff.mpr ⟨y, hb, hMinute⟩,
      bind_eq_ok_iff.mpr ⟨z, hc, hSecond⟩⟩
  · cases h
  · cases h

/-! ## The position tags -/

/-- The position tags give the day and the time of day. -/
def IsPositioned (tags : PictureTags) (m : Moment) : Prop :=
  ∃ day stamp start values, tags.lookup "GPS GPSDate" = some day ∧
    tags.lookup "GPS GPSTimeStamp" = some stamp ∧
    Pattern.colonDay.moment? (Text.trim day.text).toList = some start ∧ start.date = m.date ∧
    stamp.values = some values ∧ IsClock values m.time

/-- The position tags have a day that can be read, and a stamp that has no values, or values with
numbers that a conversion fails on. -/
def IsDerailed (tags : PictureTags) : Prop :=
  ∃ day stamp start, tags.lookup "GPS GPSDate" = some day ∧
    tags.lookup "GPS GPSTimeStamp" = some stamp ∧
    Pattern.colonDay.moment? (Text.trim day.text).toList = some start ∧
    ∀ values, stamp.values = some values → values.HasNoClock

theorem epochMillis_mem_day (m : Moment) : 86400000 * m.date.epochDay ≤ m.epochMillis ∧
    m.epochMillis < 86400000 * (m.date.epochDay + 1) := by
  have := m.time.seconds_lt
  unfold Moment.epochMillis Moment.epochSeconds
  omega

theorem positionMillis?_of_isPositioned {tags : PictureTags} {m : Moment}
    (h : IsPositioned tags m) : positionMillis? tags = .ok (some m.epochMillis) := by
  obtain ⟨day, stamp, start, values, hDay, hStamp, hStart, hDate, hValues, hClock⟩ := h
  simp only [positionMillis?, hDay, hStamp, hStart, hValues, stampTime?_of_isClock hClock,
    Value.unlessRefused, hDate, bind, Except.bind, pure, Except.pure]
  rfl

theorem positionUnread_of_forall {tags : PictureTags} (h : ∀ m, ¬ IsPositioned tags m) :
    PositionUnread tags := by
  intro day stamp start values time hDay hStamp hStart hValues hTime
  exact h ⟨start.date, time⟩ ⟨day, stamp, start, values, hDay, hStamp, hStart, rfl, hValues,
    isClock_of_stampTime? hTime⟩

theorem succeeds_position_iff {tags : PictureTags} :
    Succeeds (positionMillis? tags) ↔ ¬ IsDerailed tags := by
  rw [succeeds_positionMillis?_iff]
  constructor
  · rintro h ⟨day, stamp, start, hDay, hStamp, hStart, hLost⟩
    obtain ⟨values, hValues, hClock⟩ := h day stamp start hDay hStamp hStart
    exact hClock (hLost values hValues)
  · intro h day stamp start hDay hStamp hStart
    by_contra hNone
    exact h ⟨day, stamp, start, hDay, hStamp, hStart, fun values hValues =>
      Classical.not_not.mp fun hClock => hNone ⟨values, hValues, hClock⟩⟩

/-- What is refused counts as unread, so only other failures are left. -/
theorem Value.isRefusal_of_unlessRefused {α : Type} {result : Converted α} {e : ConversionError}
    (h : Value.unlessRefused result = .error e) : e.isRefusal = false := by
  cases result with
  | ok a => cases h
  | error other =>
    rw [Value.unlessRefused] at h
    split at h
    · cases h
    · next hRefusal => exact Except.error.inj h ▸ Bool.eq_false_iff.mpr hRefusal

theorem isRefusal_of_position {tags : PictureTags} {e : ConversionError}
    (h : positionMillis? tags = .error e) : e.isRefusal = false := by
  unfold positionMillis? at h
  split at h
  · split at h
    · cases h
    · exact Except.error.inj h ▸ rfl
    · next values _ _ =>
      cases hTime : Value.unlessRefused (stampTime? values) with
      | ok time =>
        rw [hTime] at h
        cases h
      | error other =>
        rw [hTime] at h
        exact Except.error.inj h ▸ Value.isRefusal_of_unlessRefused hTime
  · cases h

/-! ## The date tags -/

/-- The picture is dated by the first date tag that can be read, and not at all if none can. -/
inductive IsDatedBy (tags : PictureTags) : Value → Prop
  | first {before after : List String} {name : String} {tag : PictureTag} {m : Moment}
      (hTags : dateTags = before ++ name :: after) (hTag : tags.lookup name = some tag)
      (hRead : dateTagMoment? tag.text = some m)
      (hBefore : ∀ earlier ∈ before, ∀ tag, tags.lookup earlier = some tag →
        dateTagMoment? tag.text = none) : IsDatedBy tags (.int m.epochMillis)
  | none (h : ∀ name ∈ dateTags, ∀ tag, tags.lookup name = some tag →
      dateTagMoment? tag.text = none) : IsDatedBy tags .null

theorem isDatedBy_dateTagMillis? (tags : PictureTags) :
    IsDatedBy tags (.ofInt? (dateTagMillis? tags)) := by
  have hUnread : ∀ name, ((tags.lookup name).bind fun tag =>
      (dateTagMoment? tag.text).map Moment.epochMillis) = none →
        ∀ tag, tags.lookup name = some tag → dateTagMoment? tag.text = none := by
    intro name hNone tag hTag
    rwa [hTag, Option.bind_some, Option.map_eq_none_iff] at hNone
  cases hDate : dateTagMillis? tags with
  | none =>
    exact .none fun name hName => hUnread name (List.findSome?_eq_none_iff.mp hDate name hName)
  | some millis =>
    obtain ⟨before, name, after, hTags, hSome, hBefore⟩ := List.findSome?_eq_some_iff.mp hDate
    obtain ⟨tag, hTag, hSome⟩ := Option.bind_eq_some_iff.mp hSome
    obtain ⟨m, hRead, rfl⟩ := Option.map_eq_some_iff.mp hSome
    exact .first hTags hTag hRead fun earlier hEarlier => hUnread earlier (hBefore earlier hEarlier)

/-! ## The other columns -/

def datingTags : List String := ["GPS GPSDate", "GPS GPSTimeStamp"] ++ dateTags

/-- The tags without those that date a picture. -/
def undated (tags : PictureTags) : PictureTags :=
  tags.filter fun entry => entry.1 ∉ datingTags

theorem lookup_undated (tags : PictureTags) (name : String) :
    (undated tags).lookup name = if name ∈ datingTags then none else tags.lookup name := by
  induction tags with
  | nil => simp [undated]
  | cons entry tags ih =>
    obtain ⟨other, tag⟩ := entry
    rw [undated, List.filter_cons, ← undated]
    by_cases hSame : name = other
    · subst hSame
      split <;> simp_all
    · have hOther : (name == other) = false := by simpa using hSame
      split <;> simp [List.lookup_cons, hOther, ih]

theorem positionMillis?_undated (tags : PictureTags) :
    positionMillis? (undated tags) = .ok none := by
  have hDay : (undated tags).lookup "GPS GPSDate" = none := by
    rw [lookup_undated, if_pos (by decide)]
  simp only [positionMillis?, hDay]

theorem dateTagMillis?_undated (tags : PictureTags) : dateTagMillis? (undated tags) = none := by
  refine dateTagMillis?_of_unread fun name hName tag hTag => ?_
  have hDating : name ∈ datingTags := List.mem_append_right _ hName
  rw [lookup_undated, if_pos hDating] at hTag
  cases hTag

theorem putAll_put_dateTaken (base : Record) (w h description old taken degrees : Value) :
    (base.putAll [(.width, w), (.height, h), (.description, description), (.dateTaken, old),
      (.orientation, degrees)]).put .dateTaken taken =
    base.putAll [(.width, w), (.height, h), (.description, description), (.dateTaken, taken),
      (.orientation, degrees)] := by
  funext c
  cases c <;> rfl

/-- The position tags come first, and all other columns are those of the tags without dates. -/
theorem imageColumns_eq (s : Source) (tags : PictureTags) (width height : Value) :
    imageColumns s tags width height = (do
      let position ← positionMillis? tags
      let rest ← imageColumns s (undated tags) width height
      return ⟨rest.record.put .dateTaken (.ofInt? (position <|> dateTagMillis? tags)),
        rest.notes⟩) := by
  have hKept : ∀ name ∉ datingTags, (undated tags).lookup name = tags.lookup name :=
    fun name hName => (lookup_undated tags name).trans (if_neg hName)
  have hDescription := hKept "Image ImageDescription" (by decide)
  have hOrientation : tagInteger? (undated tags) ["Image Orientation"] =
      tagInteger? tags ["Image Orientation"] := by
    rw [tagInteger?_singleton rfl, tagInteger?_singleton rfl, hKept _ (by decide)]
  simp only [imageColumns, positionMillis?_undated, dateTagMillis?_undated, hDescription,
    hOrientation]
  cases positionMillis? tags with
  | error e => rfl
  | ok position =>
    cases tagInteger? tags ["Image Orientation"] with
    | error e => rfl
    | ok code =>
      cases width.shown with
      | error e => rfl
      | ok w =>
        cases height.shown with
        | error e => rfl
        | ok h => simp only [bind, Except.bind, pure, Except.pure, putAll_put_dateTaken]

/-! ## A picture with its date -/

/-- A picture that can be read, and that is taken in without the tags that date it, is taken in with
them but for its date, unless they are derailed. It is dated by its position tags where they give a
moment, which is one of the day they name, and by its date tags otherwise. Only derailed position
tags cost the picture. -/
theorem picture_dated_unless_derailed {t : Tree} {s : Source} {tags : PictureTags}
    {width height : Value} {rest : Extraction}
    (hPicture : readPicture t s = .ok (tags, width, height))
    (hRest : imageColumns s (undated tags) width height = .ok rest) :
    (∀ m, IsPositioned tags m →
      extractImage t s = .ok ⟨rest.record.put .dateTaken (.int m.epochMillis), rest.notes⟩ ∧
        86400000 * m.date.epochDay ≤ m.epochMillis ∧
        m.epochMillis < 86400000 * (m.date.epochDay + 1)) ∧
    ((∀ m, ¬ IsPositioned tags m) → ¬ IsDerailed tags → ∃ dated, IsDatedBy tags dated ∧
      extractImage t s = .ok ⟨rest.record.put .dateTaken dated, rest.notes⟩) ∧
    ((∃ failure, extractImage t s = .error failure) ↔ IsDerailed tags) ∧
    ∀ failure, extractImage t s = .error failure →
      ∃ e, failure = .conversion e ∧ e.isRefusal = false := by
  have hExtract : extractImage t s = Extracted.ofConverted (positionMillis? tags >>= fun position =>
      pure ⟨rest.record.put .dateTaken (.ofInt? (position <|> dateTagMillis? tags)),
        rest.notes⟩) := by
    rw [extractImage, hPicture]
    change Extracted.ofConverted (imageColumns s tags width height) = _
    rw [imageColumns_eq, hRest]
    rfl
  rw [hExtract]
  have hDerailed : Succeeds (positionMillis? tags) ↔ _ := succeeds_position_iff
  refine ⟨fun m hPositioned => ⟨?_, epochMillis_mem_day m⟩, fun hNone hRail => ?_, ?_, ?_⟩
  · rw [positionMillis?_of_isPositioned hPositioned]
    rfl
  · obtain ⟨position, hPosition⟩ := hDerailed.mpr hRail
    refine ⟨_, isDatedBy_dateTagMillis? tags, ?_⟩
    rw [hPosition, positionMillis?_of_unread hPosition (positionUnread_of_forall hNone)]
    rfl
  · rw [← not_iff_not, ← hDerailed]
    cases positionMillis? tags with
    | error e => exact iff_of_false (not_not_intro ⟨_, rfl⟩) not_succeeds_error
    | ok position =>
      refine iff_of_true ?_ (succeeds_ok position)
      rintro ⟨failure, hFails⟩
      cases hFails
  · cases hPosition : positionMillis? tags with
    | error e =>
      intro failure hFails
      exact ⟨e, (Except.error.inj hFails).symm, isRefusal_of_position hPosition⟩
    | ok position =>
      intro failure hFails
      cases hFails

/-- A picture with a date, and with a position of a day that can be read and an endless hour. -/
def derailedTags : PictureTags :=
  [("GPS GPSDate", ⟨"2020:01:31", none⟩),
    ("GPS GPSTimeStamp", ⟨"", some (.list [.float (.infinite false), .int 0, .int 0])⟩),
    ("Image DateTime", ⟨"2021:02:03 04:05:06", none⟩)]

def derailedTree : Tree :=
  ⟨.plain .directory, [(["p.jpg"], { Disk.Node.plain .file with
    media := { Decoded.nothing with
      picture := .found derailedTags
      pixels := .found [.int 4, .int 5] } })]⟩

def derailedSource : Source :=
  ⟨⟨⟨.root, ["p.jpg"]⟩, 0, Disk.Node.defaultTime, Disk.Node.defaultTime, false⟩,
    some "image/jpeg", "/"⟩

theorem isDerailed_derailedTags : IsDerailed derailedTags := by
  obtain ⟨start, hStart⟩ : ∃ start,
      Pattern.colonDay.moment? (Text.trim "2020:01:31").toList = some start :=
    Option.isSome_iff_exists.mp (by decide +kernel)
  refine ⟨_, _, start, rfl, rfl, hStart, fun values hValues => ?_⟩
  obtain rfl := Option.some.inj hValues
  exact ⟨_, rfl, .inr ⟨_, rfl, rfl, .inl ⟨false, rfl⟩⟩⟩

/-- Its date could be read, but the picture is lost. -/
theorem picture_dated_unless_derailed_endless :
    dateTagMillis? derailedTags = some 1612325106000 ∧
      ∃ failure, extractImage derailedTree derailedSource = .error failure := by
  have hPlace : derailedTree.place? derailedSource.path.names = .ok ["p.jpg"] :=
    Disk.Tree.place?_singleton rfl rfl
  have hOpens : derailedTree.openToRead derailedSource.path = .ok () := by
    rw [Disk.Tree.openToRead, Disk.Tree.locate, hPlace]
    rfl
  have hMedia : derailedTree.media derailedSource.path = .ok { Decoded.nothing with
      picture := .found derailedTags
      pixels := .found [.int 4, .int 5] } := by
    rw [Disk.Tree.media, Disk.Tree.locate, hPlace]
    rfl
  have hPicture : readPicture derailedTree derailedSource =
      .ok (derailedTags, .int 4, .int 5) := by
    simp only [readPicture, Source.decode, hOpens, hMedia]
    rfl
  have hLost := (picture_dated_unless_derailed hPicture rfl).2.2.1
  exact ⟨by decide +kernel, hLost.mpr isDerailed_derailedTags⟩

end MediaIndex.Media
