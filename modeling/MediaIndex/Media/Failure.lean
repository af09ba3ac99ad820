import MediaIndex.Disk.Fault
import MediaIndex.Media.Value

/-!
# Failures of extraction

Why a file could not be turned into a record. A failure of a decoder, and one met while the file is
read for a picture, is stated with the path and keeps its cause; a value that cannot be converted
later on is a failure of its own.
-/

namespace MediaIndex.Media

inductive Failure where
  | disk (fault : Disk.Fault)
  | undecodable (message : String)
  | conversion (error : ConversionError)
  | audioUnreadable (path : String) (cause : Failure)
  | audioUnknown (path : String)
  | videoUnreadable (path : String) (cause : Failure)
  | noVideoTrack (path : String)
  | imageUnreadable (path : String) (cause : Failure)
  deriving DecidableEq

namespace Failure

def message : Failure → String
  | disk fault => fault.message
  | undecodable message => message
  | conversion error => error.message
  | audioUnreadable path cause => "Audio decode failed for " ++ path ++ ": " ++ cause.message
  | audioUnknown path => "Unrecognized audio format: " ++ path
  | videoUnreadable path cause => "MediaInfo failed for " ++ path ++ ": " ++ cause.message
  | noVideoTrack path => "No decodable video track in " ++ path
  | imageUnreadable path cause => "Image read failed for " ++ path ++ ": " ++ cause.message

def isExtraction : Failure → Bool
  | audioUnreadable _ _ | audioUnknown _ | videoUnreadable _ _ | noVideoTrack _ => true
  | imageUnreadable _ _ => true
  | _ => false

def cause? : Failure → Option Failure
  | audioUnreadable _ cause | videoUnreadable _ cause | imageUnreadable _ cause => some cause
  | _ => none

def isInterrupt (f : Failure) : Bool :=
  f = disk .interrupted

end Failure

abbrev Extracted := Except Failure

namespace Extracted

def ofDisk {α : Type} (result : Except Disk.Fault α) : Extracted α :=
  result.mapError .disk

def ofConverted {α : Type} (result : Converted α) : Extracted α :=
  result.mapError .conversion

/-- States a failure as one of extraction. An interrupt stays one. -/
def stating {α : Type} (state : Failure → Failure) (result : Extracted α) : Extracted α :=
  result.mapError fun f => if f.isInterrupt then f else state f

end Extracted

end MediaIndex.Media
