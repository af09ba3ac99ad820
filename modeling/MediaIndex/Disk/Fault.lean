import MediaIndex.Path.Basic
import MediaIndex.Text.Quoted

/-!
# Faults of the disk

Why an operation on the tree of files fails: for a numbered reason, stated with the path that was
passed in, or because the user interrupted it. Only the first kind is ever set aside.
-/

namespace MediaIndex.Disk

inductive Reason where
  | notFound
  | ioError
  | noDevice
  | badDescriptor
  | accessDenied
  | alreadyExists
  | notDirectory
  | isDirectory
  | nameTooLong
  | tooManyLinks
  deriving DecidableEq, Repr

namespace Reason

def number : Reason → Nat
  | notFound => 2
  | ioError => 5
  | noDevice => 6
  | badDescriptor => 9
  | accessDenied => 13
  | alreadyExists => 17
  | notDirectory => 20
  | isDirectory => 21
  | nameTooLong => 36
  | tooManyLinks => 40

def message : Reason → String
  | notFound => "No such file or directory"
  | ioError => "Input/output error"
  | noDevice => "No such device or address"
  | badDescriptor => "Bad file descriptor"
  | accessDenied => "Permission denied"
  | alreadyExists => "File exists"
  | notDirectory => "Not a directory"
  | isDirectory => "Is a directory"
  | nameTooLong => "File name too long"
  | tooManyLinks => "Too many levels of symbolic links"

def isAbsence : Reason → Bool
  | notFound | notDirectory | badDescriptor | tooManyLinks => true
  | _ => false

end Reason

/-- Why an operation fails, apart from the path. -/
inductive Obstacle where
  | reason (r : Reason)
  | interrupt
  deriving DecidableEq, Repr

inductive Fault where
  | failed (r : Reason) (path : String)
  | interrupted
  deriving DecidableEq, Repr

def Obstacle.fault (path : String) : Obstacle → Fault
  | .reason r => .failed r path
  | .interrupt => .interrupted

namespace Fault

/-- The same failure, told of another path. -/
def toldOf (path : String) : Fault → Fault
  | failed r _ => failed r path
  | interrupted => interrupted

def message : Fault → String
  | failed r path =>
    "[Errno " ++ Nat.repr r.number ++ "] " ++ r.message ++ ": " ++ Text.quoted path
  | interrupted => ""

end Fault

end MediaIndex.Disk
