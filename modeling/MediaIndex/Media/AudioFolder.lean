import MediaIndex.Catalog.Column
import MediaIndex.Text.LowerCase
import MediaIndex.Text.Segments

/-!
# Audio folders

Folders with a well-known name say what the audio files below them are for. The name counts as a
whole, in any case, at any depth.
-/

namespace MediaIndex.Media

open Catalog (Column)

def audioFolders : List (String × Column) :=
  [("ringtones", .isRingtone), ("notifications", .isNotification), ("alarms", .isAlarm),
    ("podcasts", .isPodcast), ("audiobooks", .isAudiobook), ("music", .isMusic)]

def passesThrough (lowerPath : List Char) (folder : String) : Bool :=
  Text.hasSegment (("/" ++ folder ++ "/").toList) lowerPath

/-- The flags of an audio file by its path. Outside all well-known folders it counts as music. -/
def audioFlags (path : String) : List (Column × Bool) :=
  let lowerPath := Text.lower path.toList
  let flags := audioFolders.map fun entry => (entry.2, passesThrough lowerPath entry.1)
  if flags.any (·.2) then flags
  else flags.map fun flag => (flag.1, flag.1 == .isMusic)

end MediaIndex.Media
