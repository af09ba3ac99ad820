import MediaIndex.Media.AudioFolder
import MediaIndex.Media.Extraction

/-!
# Audio files

The columns of an audio file come from its tags, its length, and the folders on its path.
-/

namespace MediaIndex.Media

open Catalog (Record)
open Disk (Tree)

/-- The text of a tag: the first of its values as text, without blanks at the ends. A tag that is
missing or empty, or whose text is blank, has none. -/
def tagText (tags : Tags) (key : String) : Converted (Option String) := do
  let values := tags.value key
  if !values.isGiven then return none
  let text := Text.trim (← (← values.first).shown)
  return if text = "" then none else some text

/-- A thousand times a value as an integer: of text a thousand copies are read, a list cannot be
read, and named values and quotients over zero cannot even be multiplied. -/
def thousandfold : Value → Converted Int
  | .flag on => .ok (if on then 1000 else 0)
  | .int n => .ok (n * 1000)
  | .float x => do Value.truncateDouble (x.mul (← Value.integerToDouble 1000))
  | .text s => (Value.text (String.join (List.replicate 1000 s))).toInteger
  | .ratio num den =>
    if den = 0 then .error (.scaledOverZero num) else Value.truncateRatio (num * 1000) den
  | .list items => .error (.notIntegral (Value.list items).kind)
  | v => .error (.notScalable v.kind)

def milliseconds (length : Value) : Converted (Option Int) := do
  if length.isGiven then return some (← thousandfold length)
  return none

def audioColumns (base : Record) (path : String) (stream : AudioStream) : Converted Record := do
  let tag (key : String) : Converted Value := do return .ofText? (← tagText stream.tags key)
  let title ← tag "title"
  let duration ← milliseconds stream.length
  let artist ← tag "artist"
  let albumArtist ← tag "albumartist"
  let compilation ← tag "compilation"
  let composer ← tag "composer"
  let album ← tag "album"
  let track ← tag "tracknumber"
  let year ← tag "date"
  let genre ← tag "genre"
  let flags := (audioFlags path).map fun flag => (flag.1, Value.int (if flag.2 then 1 else 0))
  return base.putAll <|
    [(.title, title.orIfEmpty (base .title)), (.duration, .ofInt? duration),
      (.artist, artist.orIfEmpty unknownName), (.albumArtist, albumArtist),
      (.compilation, compilation), (.composer, composer), (.album, album.orIfEmpty unknownName),
      (.track, track), (.year, year), (.genre, genre)] ++ flags

def extractAudio (t : Tree) (s : Source) : Extracted Extraction := do
  let path := s.path.text
  let found ← (s.decode t (·.audio)).stating (.audioUnreadable path)
  match found with
  | none => throw (.audioUnknown path)
  | some stream =>
    let record ← Extracted.ofConverted (audioColumns (s.record .audio) path stream)
    return ⟨record, []⟩

end MediaIndex.Media
