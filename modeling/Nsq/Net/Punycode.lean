/-!
# Punycode

The characters of a label past ASCII, as letters and digits. The ASCII characters come first and
in order. Then the others are put in by rising code point: each is written as a number in base 36,
least digit first, which tells how many places and code points lie between it and the one before.
A number ends with the first digit below a threshold, and the thresholds follow the size of the
numbers before.
-/

namespace Nsq.Punycode

/-- The character of a digit: letters, then decimal digits. -/
def digit (d : Nat) : Char :=
  if d < 26 then Char.ofNat ('a'.toNat + d) else Char.ofNat ('0'.toNat + (d - 26))

/-- The digit that a character of either case stands for. -/
def digit? (c : Char) : Option Nat :=
  if 'a' ≤ c ∧ c ≤ 'z' then some (c.toNat - 'a'.toNat)
  else if 'A' ≤ c ∧ c ≤ 'Z' then some (c.toNat - 'A'.toNat)
  else if '0' ≤ c ∧ c ≤ '9' then some (c.toNat - '0'.toNat + 26)
  else none

/-- The least digit at `place` (counted in steps of 36 from 36) that does not end a number. -/
def threshold (bias place : Nat) : Nat :=
  max 1 (min 26 (place - bias))

/-- How many steps of 36 the thresholds move for numbers around `n`, and what is left of `n`. -/
def scale (n : Nat) : Nat × Nat :=
  if 455 < n then
    let (steps, rest) := scale (n / 35)
    (steps + 1, rest)
  else (0, n)
termination_by n
decreasing_by omega

/-- The bias behind a number that put the `count`-th character in; the first number is expected to
be much greater than the others. -/
def adapt (number count : Nat) (first : Bool) : Nat :=
  let n := if first then number / 700 else number / 2
  let (steps, rest) := scale (n + n / count)
  36 * steps + 36 * rest / (rest + 38)

/-- A number in base 36, from a place on; a number up to `fuel` has enough places. -/
def writeNumber (bias : Nat) : (fuel place n : Nat) → List Char
  | 0, _, n => [digit n]
  | fuel + 1, place, n =>
    let t := threshold bias place
    if n < t then [digit n]
    else digit (t + (n - t) % (36 - t)) :: writeNumber bias fuel (place + 36) ((n - t) / (36 - t))

/-- How far a label is written. -/
structure Written where
  /-- What is written. -/
  text : List Char
  /-- The places and code points passed since the last character. -/
  passed : Nat := 0
  /-- The bias of the thresholds. -/
  bias : Nat := 72
  /-- How many characters of the label are put in. -/
  count : Nat

/-- Passes a place of the label while characters with the code point `n` are put in; those below are
there already, of which `ascii` came first. -/
def Written.pass (ascii n : Nat) (w : Written) (c : Char) : Written :=
  if c.toNat < n then { w with passed := w.passed + 1 }
  else if c.toNat = n then
    { text := w.text ++ writeNumber w.bias w.passed 36 w.passed
      bias := adapt w.passed (w.count + 1) (w.count = ascii)
      count := w.count + 1 }
  else w

/-- Puts all characters with given code points in, which rise from `next` on. -/
def Written.putAll (label : List Char) (ascii : Nat) : (next : Nat) → List Nat → Written → Written
  | _, [], w => w
  | next, n :: ns, w =>
    let w := { w with passed := w.passed + (n - next) * (w.count + 1) }
    let w := label.foldl (Written.pass ascii n) w
    putAll label ascii (n + 1) ns { w with passed := w.passed + 1 }

/-- Whether a character belongs to ASCII. -/
def isAscii (c : Char) : Bool := c.toNat < 0x80

/-- A label with letters and digits for its characters past ASCII. -/
def encode (label : List Char) : List Char :=
  let ascii := label.filter isAscii
  let others := ((label.filter (!isAscii ·)).map Char.toNat).mergeSort.eraseDups
  let start : Written :=
    { text := if ascii.isEmpty then [] else ascii ++ ['-'], count := ascii.length }
  (start.putAll label ascii.length 0x80 others).text

/-- How far a label is read. -/
structure Taken where
  /-- The characters put in so far. -/
  label : List Char
  /-- The code point of the last of them, and the first that may come next. -/
  point : Nat := 0x80
  /-- The places and code points passed. -/
  passed : Nat := 0
  /-- The part of them that earlier numbers told. -/
  before : Nat := 0
  /-- What the next digit counts. -/
  weight : Nat := 1
  /-- The place of the next digit. -/
  place : Nat := 36
  /-- The bias of the thresholds. -/
  bias : Nat := 72

/-- Takes the digit that ends a number: a character is put in. -/
def Taken.putIn (t : Taken) : Option Taken :=
  let count := t.label.length + 1
  let point := t.point + t.passed / count
  let spot := t.passed % count
  if point.isValidChar then
    some
      { label := t.label.take spot ++ Char.ofNat point :: t.label.drop spot
        point := point
        passed := spot + 1
        before := spot + 1
        bias := adapt (t.passed - t.before) count (t.before = 0) }
  else none

/-- Takes digits to their end, which must end a number. -/
def Taken.digits (t : Taken) : List Char → Option (List Char)
  | [] => if t.place = 36 then some t.label else none
  | c :: cs => do
    let d ← digit? c
    let limit := threshold t.bias t.place
    let t := { t with passed := t.passed + d * t.weight }
    if d < limit then
      let t ← t.putIn
      t.digits cs
    else
      let t := { t with weight := t.weight * (36 - limit), place := t.place + 36 }
      t.digits cs

/-- Reads a label in which letters and digits stand for characters past ASCII. -/
def decode (cs : List Char) : Option (List Char) :=
  let tail := (cs.reverse.takeWhile (· != '-')).reverse
  let front := (cs.take (cs.length - tail.length)).dropLast
  ({ label := front } : Taken).digits tail

end Nsq.Punycode
