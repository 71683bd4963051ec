import Nsq.Number.Double

/-!
# Shortest decimals

The text of a double has the fewest digits that read back as it, and of those the nearest to it; a
tie goes away from zero.
All decimals that read back form an interval around the double, closed when its significand is
even; on the grid of decimals of a given length only the two neighbours of the double need a test.
-/

namespace Nsq.Double

/-- An interval of decimals that read back as one double, in units of a power of two. -/
structure Reach where
  /-- The lower end. -/
  low : Nat
  /-- The double itself. -/
  value : Nat
  /-- The upper end. -/
  high : Nat
  /-- The power of two of the unit. -/
  exponent : Int
  /-- Whether the ends belong to the interval. -/
  closed : Bool

/-- The decimals that read back as `significand · 2 ^ exponent`: half a unit to either side, but a
quarter below a power of two, where the doubles lie twice as dense. -/
def reach (significand : Nat) (exponent : Int) : Reach :=
  let below := if significand = 2 ^ 52 ∧ -1074 < exponent then 1 else 2
  { low := 4 * significand - below
    value := 4 * significand
    high := 4 * significand + 2
    exponent := exponent - 2
    closed := significand % 2 = 0 }

/-- The ratio that carries units of a reach to units of `10 ^ place`. -/
private def scale (exponent place : Int) : Nat × Nat :=
  let up (base : Nat) (e : Int) : Nat := if 0 ≤ e then base ^ e.toNat else 1
  (up 2 exponent * up 10 (-place), up 2 (-exponent) * up 10 place)

/-- The point of the grid `10 ^ place` that lies in the reach nearest to its value, if one does; of
two equally near points the greater. -/
def Reach.onGrid? (r : Reach) (place : Int) : Option Nat :=
  let (up, down) := scale r.exponent place
  let inside (k : Nat) : Bool :=
    if r.closed then r.low * up ≤ k * down && k * down ≤ r.high * up
    else r.low * up < k * down && k * down < r.high * up
  let k := r.value * up / down
  let nearer : Bool := 2 * (r.value * up - k * down) < down
  match inside k && k != 0, inside (k + 1) with
  | true, true => some (if nearer then k else k + 1)
  | true, false => some k
  | false, true => some (k + 1)
  | false, false => none

/-- The place of the leading decimal digit of a reach's value. -/
private def leadingPlace (r : Reach) : Int :=
  if 0 ≤ r.exponent then ((Nat.toDigits 10 (r.value * 2 ^ r.exponent.toNat)).length : Int) - 1
  else
    let den := 2 ^ (-r.exponent).toNat
    if den ≤ r.value then ((Nat.toDigits 10 (r.value / den)).length : Int) - 1
    else -((Nat.toDigits 10 ((den - 1) / r.value)).length : Int)

/-- The first place, going down from `place`, at which a grid point lies in the reach. -/
private def search (r : Reach) (place : Int) : (fuel : Nat) → Nat × Int
  | 0 => (0, place)
  | fuel + 1 =>
    match r.onGrid? place with
    | some k => (k, place)
    | none => search r (place - 1) fuel

/-- The digits `k` and the place `p` of the shortest decimal `k · 10 ^ p` that reads back as
`significand · 2 ^ exponent`. Eighteen places always reach one. -/
def shortest (significand : Nat) (exponent : Int) : Nat × Int :=
  let r := reach significand exponent
  search r (leadingPlace r + 1) 20

/-- A decimal written out in positions, without an exponent. -/
def positional (digits : Nat) (place : Int) : String :=
  let ds := Nat.toDigits 10 digits
  if 0 ≤ place then String.ofList (ds ++ List.replicate place.toNat '0')
  else
    let after := (-place).toNat
    let ds := List.replicate (after + 1 - ds.length) '0' ++ ds
    let fraction := (ds.drop (ds.length - after)).reverse.dropWhile (· == '0') |>.reverse
    let whole := String.ofList (ds.take (ds.length - after))
    if fraction.isEmpty then whole else whole ++ "." ++ String.ofList fraction

/-- The text of a double: the shortest decimal, in positions, with a sign only below zero (and for
the negative zero), `NaN` and `inf` for the values that are no numbers. -/
def text (d : Double) : String :=
  match d.view with
  | .nan => "NaN"
  | .infinite negative => if negative then "-inf" else "inf"
  | .finite negative m e =>
    let body := if m = 0 then "0" else
      let (k, p) := shortest m e
      positional k p
    if negative then "-" ++ body else body

end Nsq.Double
