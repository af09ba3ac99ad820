import MediaIndex.Calendar.Compact
import MediaIndex.Media.Extraction

/-!
# Video files

The columns of a video come from its general track and its first video track. Its date is the first
of three fields that can be read, and else the time the file was created.
-/

namespace MediaIndex.Media

open Catalog (Record)
open Disk (Tree)

def trackOf? (tracks : List Tags) (type : String) : Option Tags :=
  tracks.find? fun track => match track.value "track_type" with
    | .text s => s = type
    | _ => false

def dateFields : List String := ["recorded_date", "encoded_date", "tagged_date"]

/-- The moment that a date field writes: with dashes and colons, with the time zone named at either
end, with or without a fraction of a second, or in the compact form. -/
def dateFieldMoment? (cs : List Char) : Option Moment :=
  let clean := (Text.stripped Text.isBlank (Text.dropEach "UTC".toList cs)).takeWhile (· ≠ '.')
  Pattern.dashed.moment? clean <|> compactMoment? clean

def dateMoment? (general : Tags) : List String → Converted (Option Moment)
  | [] => .ok none
  | field :: fields => do
    let value := general.value field
    if !value.isGiven then dateMoment? general fields
    else match dateFieldMoment? (← value.shown).toList with
      | some m => return some m
      | none => dateMoment? general fields

def compactDate? (general : Tags) : Converted (Option (List Char)) := do
  return (← dateMoment? general dateFields).map Moment.compact

def videoMillis (general : Tags) (otherwise : Option Int) : Converted (Option Int) := do
  return compactMillis (← compactDate? general) otherwise

def resolution? (width height : Option Int) : Option String :=
  match width, height with
  | some w, some h => some (toString w ++ "x" ++ toString h)
  | _, _ => none

def createdMillis (s : Source) : Converted Int := do
  Value.truncateDouble ((Double.finite s.attributes.created).mul (← Value.integerToDouble 1000))

def videoColumns (s : Source) (general video : Tags) : Converted Record := do
  let base := s.record .video
  let width ← (video.value "width").wholeNumber
  let height ← (video.value "height").wholeNumber
  let duration ← (general.value "duration").wholeNumber
  let date ← compactDate? general
  let created ← createdMillis s
  let taken := compactMillis date (some created)
  let given (key : String) : Value := (video.value key).orIfEmpty .null
  return base.putAll
    [(.title, (general.value "title").orIfEmpty (base .title)), (.width, .ofInt? width),
      (.height, .ofInt? height), (.duration, .ofInt? duration),
      (.artist, (general.value "performer").orIfEmpty unknownName),
      (.album, (general.value "album").orIfEmpty (.text s.path.parent.name)),
      (.resolution, .ofText? (resolution? width height)), (.dateTaken, .ofInt? taken),
      (.colorStandard, given "color_primaries"),
      (.colorTransfer, given "transfer_characteristics"), (.colorRange, given "color_range")]

def extractVideo (t : Tree) (s : Source) : Extracted Extraction := do
  let path := s.path.text
  let tracks ← (s.decode t (·.tracks)).stating (.videoUnreadable path)
  match trackOf? tracks "General", trackOf? tracks "Video" with
  | some general, some video =>
    let record ← Extracted.ofConverted (videoColumns s general video)
    return ⟨record, []⟩
  | _, _ => throw (.noVideoTrack path)

end MediaIndex.Media
