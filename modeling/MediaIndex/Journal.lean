import MediaIndex.Media.Failure
import MediaIndex.Path.Basic

/-!
# The journal

What a run tells its user, in order: lines of a level, and files that were skipped because they
could not be read.
-/

namespace MediaIndex

inductive Level where
  | debug
  | info
  | warning
  | error
  deriving DecidableEq, Repr

namespace Level

def rank : Level → Nat
  | debug => 10
  | info => 20
  | warning => 30
  | error => 40

def name : Level → String
  | debug => "DEBUG"
  | info => "INFO"
  | warning => "WARNING"
  | error => "ERROR"

end Level

inductive Note where
  | line (level : Level) (text : String)
  | skipped (path : Path) (failure : Media.Failure)
  deriving DecidableEq

namespace Note

def debug (text : String) : Note := line .debug text

def info (text : String) : Note := line .info text

def warning (text : String) : Note := line .warning text

def line? (least : Level) : Note → Option (Level × String)
  | line level text => if least.rank ≤ level.rank then some (level, text) else none
  | skipped _ _ => none

end Note

end MediaIndex
