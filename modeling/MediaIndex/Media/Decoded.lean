import MediaIndex.Media.Value

/-!
# Decoded media

What the decoders make of a file: the tags and length of an audio file, the tracks of a video, the
tags and size of a picture. Any part may be missing, and any decoder may fail with a message.
-/

namespace MediaIndex.Media

/-- What one decoder makes of a file. -/
inductive Part (α : Type) where
  /-- The decoder does not recognise the file. -/
  | missing
  | failed (message : String)
  | found (value : α)
  deriving Inhabited

abbrev Tags := List (String × Value)

def Tags.value (tags : Tags) (name : String) : Value :=
  (tags.lookup name).getD .null

structure AudioStream where
  tags : Tags
  length : Value

structure PictureTag where
  text : String
  values : Option Value

abbrev PictureTags := List (String × PictureTag)

/-- What all decoders make of a file. Audio of no known format is found as nothing. -/
structure Decoded where
  audio : Part (Option AudioStream)
  tracks : Part (List Tags)
  picture : Part PictureTags
  pixels : Part (List Value)

def Decoded.nothing : Decoded := ⟨.missing, .missing, .missing, .missing⟩

instance : Inhabited Decoded := ⟨Decoded.nothing⟩

end MediaIndex.Media
