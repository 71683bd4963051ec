import Nsq.Duration.Grammar
import Nsq.Number.Shortest
import Nsq.Config.Backoff

/-!
# Values for options

A value may be handed over in several forms, and each sort of option reads the forms that can be
understood: a duration from text, milliseconds or a duration, a whole number also from a double
without fraction, a flag also from one and zero.
-/

namespace Nsq

/-- A value on its way to an option. -/
inductive ConfigValue where
  /-- A text. -/
  | text (s : String)
  /-- A whole number. -/
  | int (i : Int)
  /-- A double. -/
  | double (d : Double)
  /-- A flag. -/
  | flag (b : Bool)
  /-- A duration. -/
  | duration (d : Duration)
deriving DecidableEq

/-- A value as messages show it. -/
def ConfigValue.shown : ConfigValue → String
  | .text s => Text.quoted s
  | .int i => toString i
  | .double d => d.text
  | .flag b => toString b
  | .duration d => d.text

/-- The sorts of values that options hold. -/
inductive ValueSort where
  | duration | integer | number | boolean | string
deriving DecidableEq, Repr

/-- A sort as messages name it. -/
def ValueSort.shown : ValueSort → String
  | .duration => "a duration"
  | .integer => "an integer"
  | .number => "a number"
  | .boolean => "a boolean"
  | .string => "a string"

/-- Why a value cannot be read as what an option holds. -/
inductive ValueFault where
  /-- A negative number of milliseconds. -/
  | negativeDuration
  /-- A text that is no duration. -/
  | duration (fault : DurationFault)
  /-- A text that is no whole number. -/
  | int (fault : IntFault)
  /-- A text that is no double. -/
  | double (fault : DoubleFault)
  /-- A text that is no flag. -/
  | flagText (s : String)
  /-- A value of another form. -/
  | expected (sort : ValueSort) (got : ConfigValue)
  /-- A text that names no strategy. -/
  | unknownStrategy (name : String)
deriving DecidableEq

/-- The wording of a fault. -/
def ValueFault.message : ValueFault → String
  | .negativeDuration => "negative duration"
  | .duration fault => fault.message
  | .int fault => fault.message
  | .double fault => fault.message
  | .flagText s => "expected " ++ ValueSort.boolean.shown ++ ", got " ++ Text.quoted s
  | .expected sort got => "expected " ++ sort.shown ++ ", got " ++ got.shown
  | .unknownStrategy name => "unknown strategy " ++ Text.quoted name

namespace ConfigValue

/-- Reads a duration; a whole number counts milliseconds. -/
def toDuration : ConfigValue → Except ValueFault Duration
  | duration d => .ok d
  | int i => if i < 0 then .error .negativeDuration else .ok (.ofMillis i.toNat)
  | text s =>
    match Duration.parse s with
    | .ok d => .ok d
    | .error fault => .error (.duration fault)
  | v => .error (.expected .duration v)

/-- Brings a whole number into the range of signed words of 64 bits. -/
def clampInt64 (i : Int) : Int :=
  max minInt64 (min maxInt64 i)

/-- Reads a whole number; a double without fraction is brought into range. -/
def toInt : ConfigValue → Except ValueFault Int
  | int i => .ok i
  | double d =>
    match d.whole? with
    | some i => .ok (clampInt64 i)
    | none => .error (.expected .integer (double d))
  | text s =>
    match readInt64 (Text.trimmed s.toList) with
    | .ok i => .ok i
    | .error fault => .error (.int fault)
  | v => .error (.expected .integer v)

/-- Reads a double. -/
def toDouble : ConfigValue → Except ValueFault Double
  | double d => .ok d
  | int i => .ok (.ofInt i)
  | text s =>
    match readDouble (Text.trimmed s.toList) with
    | .ok d => .ok d
    | .error fault => .error (.double fault)
  | v => .error (.expected .number v)

/-- The texts that stand for a flag that is on. -/
def onWords : List String := ["1", "t", "T", "true", "TRUE", "True"]

/-- The texts that stand for a flag that is off. -/
def offWords : List String := ["0", "f", "F", "false", "FALSE", "False"]

/-- Reads a flag. -/
def toFlag : ConfigValue → Except ValueFault Bool
  | flag b => .ok b
  | text s =>
    let word := String.ofList (Text.trimmed s.toList)
    if word ∈ onWords then .ok true
    else if word ∈ offWords then .ok false
    else .error (.flagText word)
  | int i =>
    if i = 0 then .ok false
    else if i = 1 then .ok true
    else .error (.expected .boolean (int i))
  | v => .error (.expected .boolean v)

/-- Reads a text. -/
def toText : ConfigValue → Except ValueFault String
  | text s => .ok s
  | v => .error (.expected .string v)

/-- Reads a strategy by its name. -/
def toStrategy (v : ConfigValue) : Except ValueFault BackoffStrategy :=
  match v.toText with
  | .error fault => .error fault
  | .ok name =>
    match BackoffStrategy.ofName? name with
    | some s => .ok s
    | none => .error (.unknownStrategy name)

end ConfigValue

end Nsq
