import Nsq.Net.Percent
import Nsq.Text.Split

/-!
# Paths of URLs

A path is a run of steps with slashes between them. The steps `.` and `..` are walked at once: the
one stays, the other takes the step before back, unless that names a drive. Both may be spelled
with `%2e` for a dot.
-/

namespace Nsq.Url.Path

/-- A step with plain dots for spelled ones. -/
def plainDots : List Char → List Char
  | '%' :: '2' :: e :: cs =>
    if e = 'e' ∨ e = 'E' then '.' :: plainDots cs else '%' :: '2' :: e :: plainDots cs
  | c :: cs => c :: plainDots cs
  | [] => []

/-- Whether a step stays where it is. -/
def isStay (step : List Char) : Bool := plainDots step == ['.']

/-- Whether a step leads back. -/
def isBack (step : List Char) : Bool := plainDots step == ['.', '.']

/-- Whether a step names a drive: a letter and a colon or a bar, and nothing else but what stands
behind a backslash. -/
def isDrive : List Char → Bool
  | letter :: sign :: rest =>
    letter.isAlpha && (sign == ':' || sign == '|') && (rest.isEmpty || rest.head? == some '\\')
  | _ => false

/-- Takes a step; those taken stand in front of each other. -/
def enter (taken : List (List Char)) (step : List Char) : List (List Char) :=
  if isStay step then taken
  else if isBack step then
    match taken with
    | [] => []
    | last :: before => if isDrive last then last :: before else before
  else step :: taken

/-- Walks steps one after another. The last one names what is found there, which has an empty name
if it leads back or stays. -/
def walk (taken : List (List Char)) : List (List Char) → List (List Char)
  | [] => taken
  | [step] => if isStay step || isBack step then [] :: enter taken step else enter taken step
  | step :: steps => walk (enter taken step) steps

/-- The steps that are left of a walk. -/
def resolve (steps : List (List Char)) : List (List Char) :=
  (walk [] steps).reverse

/-- Whether a character may stand in a path. -/
def isKept (c : Char) : Bool :=
  !(['"', '#', '<', '>', '?', '\x60', '\x7b', '\x7d'].contains c)

/-- Reads what stands behind the first slash of a path. -/
def read (cs : List Char) : List (List Char) :=
  resolve (Text.splitAll '/' (Percent.encode isKept cs))

/-- The text of steps. -/
def text (steps : List (List Char)) : String :=
  String.ofList (steps.flatMap ('/' :: ·))

end Nsq.Url.Path
