/-!
# Columns

The columns that a scan writes, in the order in which it writes them. The identifier of a row and
the date it was added are kept by the table itself.
-/

namespace MediaIndex.Catalog

inductive Column where
  | path
  | volumeName
  | size
  | dateModified
  | title
  | mimeType
  | mediaType
  | isDrm
  | width
  | height
  | duration
  | artist
  | albumArtist
  | compilation
  | composer
  | album
  | track
  | year
  | genre
  | isRingtone
  | isNotification
  | isAlarm
  | isPodcast
  | isAudiobook
  | isMusic
  | resolution
  | description
  | dateTaken
  | colorStandard
  | colorTransfer
  | colorRange
  | orientation
  deriving DecidableEq, Repr

namespace Column

def all : List Column :=
  [path, volumeName, size, dateModified, title, mimeType, mediaType, isDrm, width, height, duration,
    artist, albumArtist, compilation, composer, album, track, year, genre, isRingtone,
    isNotification, isAlarm, isPodcast, isAudiobook, isMusic, resolution, description, dateTaken,
    colorStandard, colorTransfer, colorRange, orientation]

theorem mem_all (c : Column) : c ∈ all := by
  cases c <;> decide

def name : Column → String
  | path => "path"
  | volumeName => "volume_name"
  | size => "size"
  | dateModified => "date_modified"
  | title => "title"
  | mimeType => "mime_type"
  | mediaType => "media_type"
  | isDrm => "is_drm"
  | width => "width"
  | height => "height"
  | duration => "duration"
  | artist => "artist"
  | albumArtist => "album_artist"
  | compilation => "compilation"
  | composer => "composer"
  | album => "album"
  | track => "track"
  | year => "year"
  | genre => "genre"
  | isRingtone => "is_ringtone"
  | isNotification => "is_notification"
  | isAlarm => "is_alarm"
  | isPodcast => "is_podcast"
  | isAudiobook => "is_audiobook"
  | isMusic => "is_music"
  | resolution => "resolution"
  | description => "description"
  | dateTaken => "date_taken"
  | colorStandard => "color_standard"
  | colorTransfer => "color_transfer"
  | colorRange => "color_range"
  | orientation => "orientation"

def ofName? (s : String) : Option Column :=
  all.find? (·.name = s)

inductive Affinity where
  | integer
  | text
  deriving DecidableEq

def affinity : Column → Affinity
  | size | dateModified | mediaType | isDrm | width | height | duration => .integer
  | isRingtone | isNotification | isAlarm | isPodcast | isAudiobook | isMusic => .integer
  | dateTaken | orientation => .integer
  | _ => .text

def required : List Column := [volumeName, path, mediaType, isDrm]

end Column

end MediaIndex.Catalog
