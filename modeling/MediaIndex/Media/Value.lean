import MediaIndex.Number.Digits
import MediaIndex.Number.Numeral
import MediaIndex.Text.Quoted

/-!
# Tag values

What decoders report for a tag is of many kinds: nothing, a flag, a number, text, a quotient, a list
or named values. A value can be shown as text, and converted to a number; a conversion that fails
says why.
-/

namespace MediaIndex.Media

/-- A value as a decoder reports it. A quotient is in lowest terms with the sign on top, or has the
denominator zero. -/
inductive Value where
  | null
  | flag (on : Bool)
  | int (n : Int)
  | float (x : Double)
  | text (s : String)
  | ratio (num den : Int)
  | list (items : List Value)
  | dict (entries : List (String × Value))
  deriving Inhabited

inductive ConversionError where
  | notReal (kind : String)
  | notIntegral (kind : String)
  | notSubscriptable (kind : String)
  | notIterable (kind : String)
  | notScalable (kind : String)
  | badReal (text : String)
  | badInteger (text : String)
  | tooManyDigitsRead (digits : Nat)
  | tooManyDigitsShown
  | nanToInteger
  | tooFewParts (wanted given : Nat)
  | tooManyParts (wanted : Nat)
  | infinityToInteger
  | integerTooLarge
  | quotientTooLarge
  | aboveNativeInteger
  | belowNativeInteger
  | outsideNativeWord
  | realOverZero
  | integerOverZero
  | scaledOverZero (num : Int)
  | noKey (key : String)
  | noValues
  deriving DecidableEq

namespace ConversionError

def message : ConversionError → String
  | notReal kind => "float() argument must be a string or a real number, not '" ++ kind ++ "'"
  | notIntegral kind =>
    "int() argument must be a string, a bytes-like object or a real number, not '" ++ kind ++ "'"
  | notSubscriptable kind => "'" ++ kind ++ "' object is not subscriptable"
  | notIterable kind => "'" ++ kind ++ "' object is not iterable"
  | notScalable kind => "unsupported operand type(s) for *: '" ++ kind ++ "' and 'int'"
  | badReal text => "could not convert string to float: " ++ Text.quoted text
  | badInteger text =>
    "invalid literal for int() with base 10: " ++
      String.ofList ((Text.quotedChars text.toList).take 200)
  | tooManyDigitsRead digits =>
    "Exceeds the limit (4300 digits) for integer string conversion: value has " ++
      Nat.repr digits ++ " digits; use sys.set_int_max_str_digits() to increase the limit"
  | tooManyDigitsShown =>
    "Exceeds the limit (4300 digits) for integer string conversion; " ++
      "use sys.set_int_max_str_digits() to increase the limit"
  | nanToInteger => "cannot convert float NaN to integer"
  | tooFewParts wanted given =>
    "not enough values to unpack (expected " ++ Nat.repr wanted ++ ", got " ++ Nat.repr given ++ ")"
  | tooManyParts wanted => "too many values to unpack (expected " ++ Nat.repr wanted ++ ")"
  | infinityToInteger => "cannot convert float infinity to integer"
  | integerTooLarge => "int too large to convert to float"
  | quotientTooLarge => "integer division result too large for a float"
  | aboveNativeInteger => "signed integer is greater than maximum"
  | belowNativeInteger => "signed integer is less than minimum"
  | outsideNativeWord => "Python int too large to convert to C long"
  | realOverZero => "division by zero"
  | integerOverZero => "integer division or modulo by zero"
  | scaledOverZero num => "Fraction(" ++ toString num ++ ", 0)"
  | noKey key => key
  | noValues => "'IfdTag' object has no attribute 'values'"

/-- The value is of a kind, or its text of a form, that the conversion refuses. Optional tags take
a refusal as an absent value. -/
def isRefusal : ConversionError → Bool
  | notReal _ | notIntegral _ | notSubscriptable _ | notIterable _ | notScalable _ => true
  | badReal _ | badInteger _ | tooManyDigitsRead _ | tooManyDigitsShown => true
  | nanToInteger | tooFewParts _ _ | tooManyParts _ => true
  | _ => false

end ConversionError

abbrev Converted := Except ConversionError

namespace Value

def kind : Value → String
  | null => "NoneType"
  | flag _ => "bool"
  | int _ => "int"
  | float _ => "float"
  | text _ => "str"
  | ratio _ _ => "Ratio"
  | list _ => "list"
  | dict _ => "dict"

def isGiven : Value → Bool
  | null => false
  | flag on => on
  | int n => n != 0
  | float x => !x.isZero
  | text s => s ≠ ""
  | ratio num _ => num != 0
  | list items => !items.isEmpty
  | dict entries => !entries.isEmpty

def isEmpty : Value → Bool
  | null => true
  | text s => s = ""
  | _ => false

def orIfEmpty (v other : Value) : Value :=
  if v.isEmpty then other else v

def integerText (n : Int) : Converted String :=
  if Numeral.digitLimit < (Nat.repr n.natAbs).length then .error .tooManyDigitsShown
  else .ok (toString n)

def ratioText (num den : Int) : Converted String := do
  let top ← integerText num
  if den = 1 then return top
  return top ++ "/" ++ (← integerText den)

mutual

def inner : Value → Converted String
  | null => .ok "None"
  | flag on => .ok (if on then "True" else "False")
  | int n => integerText n
  | float x => .ok (DoubleLayout.shown.text x)
  | text s => .ok (Text.quoted s)
  | ratio num den => ratioText num den
  | list items => do return "[" ++ String.intercalate ", " (← innerItems items) ++ "]"
  | dict entries => do return "\x7b" ++ String.intercalate ", " (← innerEntries entries) ++ "\x7d"

def innerItems : List Value → Converted (List String)
  | [] => .ok []
  | v :: vs => do return (← inner v) :: (← innerItems vs)

def innerEntries : List (String × Value) → Converted (List String)
  | [] => .ok []
  | (key, v) :: rest => do
    return (Text.quoted key ++ ": " ++ (← inner v)) :: (← innerEntries rest)

end

def shown : Value → Converted String
  | text s => .ok s
  | v => inner v

def quotient (num den : Int) : Converted Double :=
  if den = 0 then .error .realOverZero
  else match Double.round (decide (num < 0) != decide (den < 0)) num.natAbs den.natAbs with
    | .infinite _ => .error .quotientTooLarge
    | x => .ok x

def integerToDouble (n : Int) : Converted Double :=
  match Double.ofInt? n with
  | some x => .ok x
  | none => .error .integerTooLarge

def toDouble : Value → Converted Double
  | flag on => integerToDouble (if on then 1 else 0)
  | int n => integerToDouble n
  | float x => .ok x
  | text s => match Numeral.double? s.toList with
    | some x => .ok x
    | none => .error (.badReal s)
  | ratio num den => quotient num den
  | v => .error (.notReal v.kind)

def truncateDouble : Double → Converted Int
  | .nan => .error .nanToInteger
  | .infinite _ => .error .infinityToInteger
  | .finite x => .ok x.truncate

def truncateRatio (num den : Int) : Converted Int :=
  if den = 0 then .error .integerOverZero else .ok (num.tdiv den)

/-- The integer that a value stands for; a fraction is dropped, toward zero. -/
def toInteger : Value → Converted Int
  | flag on => .ok (if on then 1 else 0)
  | int n => .ok n
  | float x => truncateDouble x
  | text s => match Numeral.integer s.toList with
    | .value n => .ok n
    | .malformed => .error (.badInteger s)
    | .tooLong digits => .error (.tooManyDigitsRead digits)
  | ratio num den => truncateRatio num den
  | v => .error (.notIntegral v.kind)

def unlessRefused {α : Type} (result : Converted α) : Converted (Option α) :=
  match result with
  | .ok a => .ok (some a)
  | .error e => if e.isRefusal then .ok none else .error e

/-- The whole part of the number that a value stands for, read by way of a double; none if the
value is empty or refused. -/
def wholeNumber (v : Value) : Converted (Option Int) :=
  if v.isEmpty then .ok none
  else unlessRefused (v.toDouble >>= truncateDouble)

def first : Value → Converted Value
  | list (v :: _) => .ok v
  | text s => .ok (text (String.ofList (s.toList.take 1)))
  | dict _ => .error (.noKey "0")
  | v => .error (.notSubscriptable v.kind)

def parts : Value → Converted (List Value)
  | list items => .ok items
  | text s => .ok (s.toList.map fun c => text (String.singleton c))
  | dict entries => .ok (entries.map fun entry => text entry.1)
  | v => .error (.notIterable v.kind)

/-- Top and bottom of a quotient, each read as a double, divided as doubles; over zero it is zero.
Any other value counts as a quotient over one. -/
def ratioAsDouble : Value → Converted Double
  | ratio num den => do
    if den = 0 then return .finite (Binary.zero false)
    return (← integerToDouble num).div (← integerToDouble den)
  | v => v.toDouble

def ofRatio (num den : Int) : Value :=
  if den = 0 then ratio num den
  else
    let common : Int := Int.gcd num den
    ratio (num * den.sign / common) (den.natAbs / common)

def ofText? : Option String → Value
  | some s => text s
  | none => null

def ofInt? : Option Int → Value
  | some n => int n
  | none => null

end Value

end MediaIndex.Media
