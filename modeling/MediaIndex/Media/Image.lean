import MediaIndex.Calendar.Pattern
import MediaIndex.Media.Extraction

/-!
# Image files

The columns of an image come from the tags of its picture. Tags that do not give its size leave that
to the decoder of the pixels. Its date is the one of the position tags, which are in universal time,
and else the first of three date tags that can be read.
-/

namespace MediaIndex.Media

open Catalog (Record)
open Disk (Tree)

def tagInteger? (tags : PictureTags) : List String → Converted (Option Int)
  | [] => .ok none
  | name :: names =>
    let values := ((tags.lookup name).bind (·.values)).getD .null
    if !values.isGiven then tagInteger? tags names
    else do match ← Value.unlessRefused (values.first >>= Value.toInteger) with
      | some n => return some n
      | none => tagInteger? tags names

def orientationDegrees (code : Option Int) : Int :=
  match code with
  | some 6 => 90
  | some 3 => 180
  | some 8 => 270
  | _ => 0

def nativeInteger (n : Int) : Converted Int :=
  if n < -0x8000000000000000 ∨ 0x8000000000000000 ≤ n then .error .outsideNativeWord
  else if 0x80000000 ≤ n then .error .aboveNativeInteger
  else if n < -0x80000000 then .error .belowNativeInteger
  else .ok n

def clockTime? (hour minute second : Int) : Option TimeOfDay :=
  if 0 ≤ hour ∧ 0 ≤ minute ∧ 0 ≤ second then
    TimeOfDay.of? hour.toNat minute.toNat second.toNat
  else none

/-- The time of day that the values of a time stamp give. One value too many is still read. -/
def stampTime? (values : Value) : Converted (Option TimeOfDay) := do
  let numbers ← ((← values.parts).take 4).mapM Value.ratioAsDouble
  match numbers with
  | [h, m, s] =>
    let hour ← Value.truncateDouble h
    let minute ← Value.truncateDouble m
    let second ← Value.truncateDouble s
    return clockTime? (← nativeInteger hour) (← nativeInteger minute) (← nativeInteger second)
  | [_, _, _, _] => throw (.tooManyParts 3)
  | few => throw (.tooFewParts 3 few.length)

def positionMillis? (tags : PictureTags) : Converted (Option Int) :=
  match tags.lookup "GPS GPSDate", tags.lookup "GPS GPSTimeStamp" with
  | some day, some stamp =>
    match Pattern.colonDay.moment? (Text.trim day.text).toList, stamp.values with
    | none, _ => .ok none
    | some _, none => .error .noValues
    | some m, some values => do
      let time ← Value.unlessRefused (stampTime? values)
      return time.join.map fun time => Moment.epochMillis ⟨m.date, time⟩
  | _, _ => .ok none

def dateTags : List String := ["Image DateTime", "EXIF DateTimeOriginal", "EXIF DateTimeDigitized"]

def dateTagMoment? (text : String) : Option Moment :=
  Pattern.dashed.moment? (Text.replaceFirst ':' '-' 2 text.toList)

def dateTagMillis? (tags : PictureTags) : Option Int :=
  dateTags.findSome? fun name =>
    (tags.lookup name).bind fun tag => (dateTagMoment? tag.text).map Moment.epochMillis

def sizeOf (pixels : List Value) : Converted (Value × Value) :=
  match pixels with
  | [width, height] => .ok (width, height)
  | _ :: _ :: _ :: _ => .error (.tooManyParts 2)
  | few => .error (.tooFewParts 2 few.length)

def readPicture (t : Tree) (s : Source) : Extracted (PictureTags × Value × Value) := do
  Extracted.ofDisk (t.openToRead s.path)
  let tags ← s.decode t (·.picture)
  let width ← Extracted.ofConverted (tagInteger? tags ["EXIF ExifImageWidth", "Image ImageWidth"])
  let height ← Extracted.ofConverted
    (tagInteger? tags ["EXIF ExifImageLength", "Image ImageLength"])
  match width, height with
  | some w, some h => return (tags, .int w, .int h)
  | _, _ => return (tags, ← Extracted.ofConverted (sizeOf (← s.decode t (·.pixels))))

def imageColumns (s : Source) (tags : PictureTags) (width height : Value) :
    Converted Extraction := do
  let description := (tags.lookup "Image ImageDescription").map fun tag => Text.trim tag.text
  let position ← positionMillis? tags
  let taken := position <|> dateTagMillis? tags
  let degrees := orientationDegrees (← tagInteger? tags ["Image Orientation"])
  let size := (← width.shown) ++ "x" ++ (← height.shown)
  let record := (s.record .image).putAll
    [(.width, width), (.height, height),
      (.description, (Value.ofText? description).orIfEmpty .null), (.dateTaken, .ofInt? taken),
      (.orientation, .int degrees)]
  return ⟨record, [.debug ("Image " ++ s.path.text ++ ": " ++ size ++ ", orientation=" ++
    toString degrees)]⟩

def extractImage (t : Tree) (s : Source) : Extracted Extraction := do
  let (tags, width, height) ← (readPicture t s).stating (.imageUnreadable s.path.text)
  Extracted.ofConverted (imageColumns s tags width height)

end MediaIndex.Media
