import MediaIndex.CommandLine.Run
import MediaIndex.Disk.Manifest

/-!
# The program

The program works on the tree of files that a manifest on its standard input states. It prints what
the run tells and the report if one was written, and it ends with the code of the run.
-/

namespace MediaIndex.CommandLine

def printOutcome (least : Level) (outcome : Outcome) : IO UInt32 := do
  for (level, text) in outcome.notes.filterMap (·.line? least) do
    IO.println ("[" ++ level.name ++ "] " ++ text)
  if let some (_, text) := outcome.report then IO.print text
  match outcome.ending with
  | .left failure =>
    IO.eprintln failure.message
    return 1
  | .failed failure =>
    IO.println ("[" ++ Level.error.name ++ "] " ++ fatalText ++ " " ++ failure.message)
    return 1
  | .cancelled => return 1
  | .done => return 0

def runOnInput (options : Options) : IO UInt32 := do
  let lines ← (← IO.getStdin).lines
  match Disk.Manifest.tree lines.toList with
  | .error line =>
    IO.eprintln ("not a line of a manifest: " ++ line)
    return 2
  | .ok tree => printOutcome options.leastLevel (run options ⟨tree, [], 0⟩)

end MediaIndex.CommandLine

def main (arguments : List String) : IO UInt32 := do
  match MediaIndex.CommandLine.Options.ofArguments arguments with
  | .error stop =>
    IO.eprintln stop.message
    return stop.exitCode.toUInt32
  | .ok options => MediaIndex.CommandLine.runOnInput options
