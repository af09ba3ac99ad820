import MediaIndex.Media.MimeType

/-!
# Categories

The catalog keeps directories and four categories of media. A name that starts with a dot is hidden
and has no category.
-/

namespace MediaIndex.Media

inductive Category where
  | directory
  | audio
  | playlist
  | video
  | image
  deriving DecidableEq, Repr

namespace Category

def name : Category → String
  | directory => "directory"
  | audio => "audio"
  | playlist => "playlist"
  | video => "video"
  | image => "image"

def code : Category → Int
  | directory => 0
  | image => 1
  | audio => 2
  | video => 3
  | playlist => 4

def codeName? (code : Int) : Option String :=
  match code with
  | 0 => some "none"
  | 1 => some "image"
  | 2 => some "audio"
  | 3 => some "video"
  | 4 => some "playlist"
  | _ => none

end Category

def playlistTypes : List String :=
  ["audio/x-mpegurl", "audio/mpegurl", "application/x-mpegurl", "application/vnd.apple.mpegurl",
    "audio/x-scpls", "application/vnd.ms-wpl"]

def inFamily (family : String) (type : String) : Bool :=
  (family ++ "/").toList.isPrefixOf (Text.lower type.toList)

def isPlaylistType (type : String) : Bool :=
  playlistTypes.contains (Text.lowercase type)

def isAudioType (type : String) : Bool :=
  inFamily "audio" type && !isPlaylistType type

def isVideoType (type : String) : Bool :=
  inFamily "video" type

def isImageType (type : String) : Bool :=
  inFamily "image" type

def categoryOfType? (type : String) : Option Category :=
  if isAudioType type then some .audio
  else if isPlaylistType type then some .playlist
  else if isVideoType type then some .video
  else if isImageType type then some .image
  else none

def isDotName (name : String) : Bool :=
  name.toList.head? == some '.'

def categoryOf? (name : String) (isDirectory : Bool) : Option Category :=
  if isDotName name then none
  else if isDirectory then some .directory
  else (guessType? name).bind categoryOfType?

end MediaIndex.Media
