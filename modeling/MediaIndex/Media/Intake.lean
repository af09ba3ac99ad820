import MediaIndex.Media.Audio
import MediaIndex.Media.Image
import MediaIndex.Media.Video

/-!
# Taking in a file

A visited path is given to the extractor of its category. Hidden names and unsupported types give no
record, and neither does a file that cannot be read: that is told and costs nothing else. Only an
interrupt goes further.
-/

namespace MediaIndex.Media

open Catalog (Record)
open Disk (Attributes Tree)

def extract (t : Tree) (category : Category) (s : Source) : Extracted Extraction :=
  match category with
  | .directory | .playlist => .ok ⟨s.record category, []⟩
  | .audio => extractAudio t s
  | .video => extractVideo t s
  | .image => extractImage t s

def skipNote (told : Bool) (path : Path) (failure : Failure) : Note :=
  if told then .skipped path failure
  else .debug ("Ignoring troubled file " ++ path.text ++ ": " ++ failure.message)

structure Intake where
  notes : List Note
  record : Option Record

def Intake.none (notes : List Note) : Intake := ⟨notes, Option.none⟩

/-- Takes in a path. `told` says that someone asked to be told of skipped files. -/
def takeIn (t : Tree) (told : Bool) (a : Attributes) (volume : String) :
    Except Disk.Fault Intake :=
  let name := a.path.name
  match categoryOf? name a.isDirectory with
  | Option.none =>
    if isDotName name then .ok (.none [])
    else .ok (.none [.debug ("Ignoring unsupported file: " ++ a.path.text)])
  | some category =>
    let type := if a.isDirectory then Option.none else guessType? name
    match extract t category ⟨a, type, volume⟩ with
    | .ok extraction => .ok ⟨extraction.notes, some extraction.record⟩
    | .error (.disk .interrupted) => .error .interrupted
    | .error failure => .ok (.none [skipNote told a.path failure])

end MediaIndex.Media
