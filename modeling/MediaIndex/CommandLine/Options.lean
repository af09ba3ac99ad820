import MediaIndex.Path.Basic
import MediaIndex.Text.Digit
import MediaIndex.Text.Quoted

/-!
# Options of the command line

Arguments are options or positional. Long options may be shortened as long as one option alone fits;
an argument that is a negative number, or holds a blank and fits no option, is positional; two
dashes make all that follows positional, and as the value of an option they leave it empty. The
positional arguments are the roots. Only the first unbroken group of them counts.
-/

namespace MediaIndex.CommandLine

inductive Flag where
  | help
  | db
  | logFile
  | verbose
  | report
  | stats
  deriving DecidableEq, Repr

namespace Flag

def spellings : List (String × Flag) :=
  [("-h", help), ("--help", help), ("--db", db), ("--log-file", logFile), ("-v", verbose),
    ("--verbose", verbose), ("--report", report), ("--stats", stats)]

def ofSpelling? (s : String) : Option Flag :=
  spellings.lookup s

def takesValue : Flag → Bool
  | db | logFile | report => true
  | help | verbose | stats => false

def name (f : Flag) : String :=
  String.intercalate "/" ((spellings.filter (·.2 = f)).map (·.1))

end Flag

inductive Setting (α : Type) where
  | unset
  | emptied
  | value (a : α)
  deriving DecidableEq, Repr

namespace Setting

def ofText {α : Type} (read : String → α) (s : String) : Setting α :=
  if s = "--" then .emptied else .value (read s)

def value? {α : Type} : Setting α → Option α
  | .value a => some a
  | _ => none

end Setting

structure Options where
  roots : List Path
  db : Setting Path
  logFile : Setting Path
  verbose : Bool
  report : Setting String
  stats : Bool
  deriving DecidableEq

def Options.usual : Options :=
  ⟨[], .value (Path.ofText "media_catalog.db"), .unset, false, .unset, false⟩

inductive UsageStop where
  | help
  | ambiguous (argument : String) (fitting : List String)
  | valueMissing (flag : Flag)
  | valueIgnored (flag : Flag) (value : String)
  | rootsMissing
  | unrecognized (arguments : List String)
  deriving DecidableEq

namespace UsageStop

def message : UsageStop → String
  | help => ""
  | ambiguous argument fitting =>
    "ambiguous option: " ++ argument ++ " could match " ++ String.intercalate ", " fitting
  | valueMissing flag => "argument " ++ flag.name ++ ": expected one argument"
  | valueIgnored flag value =>
    "argument " ++ flag.name ++ ": ignored explicit argument " ++ Text.quoted value
  | rootsMissing => "the following arguments are required: roots"
  | unrecognized arguments => "unrecognized arguments: " ++ String.intercalate " " arguments

def exitCode : UsageStop → Nat
  | help => 0
  | _ => 2

end UsageStop

inductive Argument where
  | positional (s : String)
  /-- Two dashes, after which everything is positional. -/
  | divider
  | option (flag : Flag) (spelling : String) (value : Option String)
  | unknown (s : String)
  deriving DecidableEq

namespace Argument

/-- A negative number, whole or with a fraction. One line feed may follow. -/
def isNegativeNumber (cs : List Char) : Bool :=
  match cs with
  | '-' :: rest =>
    let rest := if rest.getLast? = some '\n' then rest.dropLast else rest
    let fraction := rest.dropWhile Text.isDigit
    match fraction with
    | [] => !rest.isEmpty
    | '.' :: digits => !digits.isEmpty && digits.all Text.isDigit
    | _ => false
  | _ => false

def cutAtEquals? (cs : List Char) : Option (String × String) :=
  if '=' ∈ cs then
    some (String.ofList (cs.takeWhile (· ≠ '=')), String.ofList ((cs.dropWhile (· ≠ '=')).drop 1))
  else none

def fitting (s : String) : List (Flag × String × Option String) :=
  let cs := s.toList
  if cs.take 2 = ['-', '-'] then
    let (start, value) := match cutAtEquals? cs with
      | some (start, value) => (start, some value)
      | none => (s, none)
    Flag.spellings.filterMap fun (spelling, flag) =>
      if start.toList.isPrefixOf spelling.toList then some (flag, spelling, value) else none
  else
    Flag.spellings.filterMap fun (spelling, flag) =>
      if spelling = String.ofList (cs.take 2) then
        some (flag, spelling, some (String.ofList (cs.drop 2)))
      else if cs.isPrefixOf spelling.toList then some (flag, spelling, none)
      else none

def ofDashed (s : String) : Except UsageStop Argument :=
  let spelled := (cutAtEquals? s.toList).bind fun (start, value) =>
    (Flag.ofSpelling? start).map fun flag => Argument.option flag start (some value)
  match spelled with
  | some argument => .ok argument
  | none => match fitting s with
    | [(flag, spelling, value)] => .ok (.option flag spelling value)
    | [] =>
      if isNegativeNumber s.toList ∨ ' ' ∈ s.toList then .ok (.positional s) else .ok (.unknown s)
    | several => .error (.ambiguous s (several.map (·.2.1)))

def ofText (s : String) : Except UsageStop Argument :=
  if s.toList.head? ≠ some '-' ∨ s = "-" then .ok (.positional s)
  else if s = "--" then .ok .divider
  else match Flag.ofSpelling? s with
    | some flag => .ok (.option flag s none)
    | none => ofDashed s

def ofTexts : List String → Except UsageStop (List Argument)
  | [] => .ok []
  | s :: rest => do
    let argument ← ofText s
    if argument = .divider then return .divider :: rest.map .positional
    return argument :: (← ofTexts rest)

def text : Argument → String
  | positional s | unknown s => s
  | divider => "--"
  | option _ spelling _ => spelling

def isPlain : Argument → Bool
  | positional _ | divider => true
  | _ => false

end Argument

structure Reading where
  options : Options
  hasRoots : Bool
  extras : List String

namespace Reading

def turnOn (r : Reading) (flag : Flag) : Except UsageStop Reading :=
  match flag with
  | .help => .error .help
  | .verbose => .ok { r with options := { r.options with verbose := true } }
  | .stats => .ok { r with options := { r.options with stats := true } }
  | _ => .error (.valueMissing flag)

def set (r : Reading) (flag : Flag) (value : String) : Reading :=
  match flag with
  | .db => { r with options := { r.options with db := .ofText Path.ofText value } }
  | .logFile => { r with options := { r.options with logFile := .ofText Path.ofText value } }
  | .report => { r with options := { r.options with report := .ofText id value } }
  | _ => r

/-- The short options without a value that a value given along with a short one stands for; the
first character that is none refuses the whole. -/
def cluster (flag : Flag) : List Char → Except UsageStop (List Flag)
  | [] => .ok [flag]
  | c :: cs =>
    match Flag.ofSpelling? (String.ofList ['-', c]) with
    | some next => do return flag :: (← cluster next cs)
    | none => .error (.valueIgnored flag (String.ofList (c :: cs)))

def setGiven (r : Reading) (flag : Flag) (spelling value : String) : Except UsageStop Reading :=
  if flag.takesValue then .ok (r.set flag value)
  else if spelling.toList.take 2 = ['-', '-'] ∨ value = "" then .error (.valueIgnored flag value)
  else do (← cluster flag value.toList).foldlM turnOn r

def takeGroup (r : Reading) (group : List Argument) : Reading :=
  if r.hasRoots ∨ group = [.divider] then { r with extras := r.extras ++ group.map (·.text) }
  else
    let roots := (group.map (·.text)).erase "--"
    { r with options := { r.options with roots := roots.map Path.ofText }, hasRoots := true }

def takeAll (r : Reading) : List Argument → Except UsageStop Reading
  | [] => .ok r
  | .option flag spelling (some value) :: rest => do
    takeAll (← r.setGiven flag spelling value) rest
  | .option flag _ none :: rest =>
    if flag.takesValue then
      match rest with
      | .positional value :: rest => takeAll (r.set flag value) rest
      | _ => .error (.valueMissing flag)
    else do takeAll (← r.turnOn flag) rest
  | .unknown s :: rest => takeAll { r with extras := r.extras ++ [s] } rest
  | argument :: rest =>
    takeAll (r.takeGroup (argument :: rest.takeWhile (·.isPlain))) (rest.dropWhile (·.isPlain))
termination_by arguments => arguments.length
decreasing_by
  all_goals simp only [List.length_cons]
  all_goals first
    | omega
    | exact Nat.lt_succ_of_le (List.dropWhile_sublist _).length_le

end Reading

def Options.ofArguments (texts : List String) : Except UsageStop Options := do
  let arguments ← Argument.ofTexts texts
  let r ← Reading.takeAll ⟨.usual, false, []⟩ arguments
  if !r.hasRoots then throw .rootsMissing
  if !r.extras.isEmpty then throw (.unrecognized r.extras)
  return r.options

end MediaIndex.CommandLine
