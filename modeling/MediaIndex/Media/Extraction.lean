import MediaIndex.Catalog.Record
import MediaIndex.Disk.Listing
import MediaIndex.Journal
import MediaIndex.Media.Category

/-!
# What every extraction shares

The columns that do not depend on the category, and the reading of what a decoder made of a file.
-/

namespace MediaIndex.Media

open Catalog (Record)
open Disk (Attributes Tree)

structure Source where
  attributes : Attributes
  type : Option String
  volume : String

namespace Source

def path (s : Source) : Path := s.attributes.path

def record (s : Source) (category : Category) : Record :=
  let basic := Record.basic s.path.text s.volume s.attributes.size s.attributes.modifiedSecond
    (Path.beforeLastDot s.path.name)
  basic.putAll [(.mimeType, .ofText? s.type), (.mediaType, .int category.code)]

def decode {α : Type} (s : Source) (t : Tree) (part : Decoded → Part α) : Extracted α := do
  match part (← Extracted.ofDisk (t.media s.path)) with
  | .found value => return value
  | .failed message => throw (.undecodable message)
  | .missing => throw (.undecodable ("cannot decode " ++ s.path.name))

end Source

structure Extraction where
  record : Record
  notes : List Note

def unknownName : Value := .text "<unknown>"

end MediaIndex.Media
