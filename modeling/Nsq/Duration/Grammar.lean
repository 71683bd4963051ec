import Nsq.Duration.Basic
import Nsq.Number.Literal
import Nsq.Text.Blank
import Nsq.Text.Quoted

/-!
# The grammar of durations

A duration is written as a whole number of milliseconds (`1500`) or as numbers with units, one
after another (`1m30s`, `1.5h`). A number is a run of digits and points, a unit everything up to
the next digit or point. White space counts only around the whole.
-/

namespace Nsq

/-- Why a text is no duration. -/
inductive DurationFault where
  /-- There is nothing but white space. -/
  | empty
  /-- The last number has no unit. -/
  | missingUnit (input : String)
  /-- A number is missing or malformed. -/
  | malformed (input : String)
  /-- A unit has no such name. -/
  | unknownUnit (unit input : String)
  /-- The sum is no duration. -/
  | unrepresentable (input : String)
deriving DecidableEq, Repr

/-- The wording of a fault. -/
def DurationFault.message : DurationFault → String
  | .empty => "empty duration"
  | .missingUnit input => "missing unit in duration " ++ Text.quoted input
  | .malformed input => "invalid duration " ++ Text.quoted input
  | .unknownUnit unit input =>
    "unknown unit " ++ Text.quoted unit ++ " in duration " ++ Text.quoted input
  | .unrepresentable input =>
    "invalid duration " ++ Text.quoted input ++
      ": cannot convert float seconds to Duration: value is either too big or NaN"

namespace Duration

/-- The units. -/
inductive Unit where
  | nanosecond | microsecond | millisecond | second | minute | hour
deriving DecidableEq, Repr

/-- The seconds in a unit, to the nearest double. -/
def Unit.scale : Unit → Double
  | .nanosecond => Double.ofRatio false 1 (10 ^ 9)
  | .microsecond => Double.ofRatio false 1 (10 ^ 6)
  | .millisecond => Double.ofRatio false 1 (10 ^ 3)
  | .second => Double.ofRatio false 1 1
  | .minute => Double.ofRatio false 60 1
  | .hour => Double.ofRatio false 3600 1

/-- Reads the name of a unit. A microsecond may be written with the micro sign. -/
def Unit.ofName? (name : List Char) : Option Unit :=
  if name = ['n', 's'] then some .nanosecond
  else if name = ['u', 's'] ∨ name = ['µ', 's'] then some .microsecond
  else if name = ['m', 's'] then some .millisecond
  else if name = ['s'] then some .second
  else if name = ['m'] then some .minute
  else if name = ['h'] then some .hour
  else none

/-- Whether a character belongs to a number. -/
def isNumeral (c : Char) : Bool :=
  isDigit c || c == '.'

theorem length_dropWhile_le {α : Type} (p : α → Bool) (l : List α) :
    (l.dropWhile p).length ≤ l.length :=
  (List.dropWhile_sublist p).length_le

/-- Adds up numbers with units, in seconds; `input` is the whole text, for the faults. -/
def sumUnits (input : String) (total : Double) (rest : List Char) : Except DurationFault Double :=
  match rest with
  | [] => .ok total
  | c :: cs =>
    if isNumeral c then
      let number := c :: cs.takeWhile isNumeral
      let tail := cs.dropWhile isNumeral
      if tail.isEmpty then .error (.missingUnit input)
      else
        match readDouble number with
        | .error _ => .error (.malformed input)
        | .ok value =>
          let unit := tail.takeWhile fun c => !isNumeral c
          match Unit.ofName? unit with
          | none => .error (.unknownUnit (String.ofList unit) input)
          | some u =>
            sumUnits input (total + value * u.scale) (tail.dropWhile fun c => !isNumeral c)
    else .error (.malformed input)
termination_by rest.length
decreasing_by
  have h₁ := length_dropWhile_le (fun c => !isNumeral c) (cs.dropWhile isNumeral)
  have h₂ := length_dropWhile_le isNumeral cs
  simp only [List.length_cons]
  omega

/-- The greatest unsigned word of 64 bits. -/
def maxWord : Int := 2 ^ 64 - 1

/-- Reads a duration. -/
def parse (input : String) : Except DurationFault Duration :=
  let s := Text.trimmed input.toList
  if s.isEmpty then .error .empty
  else
    match readInt 0 maxWord s with
    | .ok n => .ok (ofMillis n.toNat)
    | .error _ =>
      match sumUnits input (Double.zero false) s with
      | .error fault => .error fault
      | .ok total =>
        match ofDouble? total with
        | some d => .ok d
        | none => .error (.unrepresentable input)

end Duration

end Nsq
