import Nsq.Number.Double

/-!
# Durations

A duration is a whole number of nanoseconds whose seconds fit a word of 64 bits. Products saturate
at the longest duration, and a duration read from a double is rounded to the nearest nanosecond.
-/

namespace Nsq

/-- A length of time in nanoseconds, below `2 ^ 64` seconds. -/
structure Duration where
  /-- The length in nanoseconds. -/
  nanos : Nat
  nanos_lt : nanos < 2 ^ 64 * 10 ^ 9 := by decide
deriving DecidableEq

namespace Duration

/-- The empty duration. -/
def zero : Duration := ⟨0, by decide⟩

instance : Inhabited Duration := ⟨zero⟩

/-- The longest duration. -/
def longest : Duration := ⟨2 ^ 64 * 10 ^ 9 - 1, by decide⟩

/-- The duration of that many nanoseconds, or the longest one. -/
def saturating (n : Nat) : Duration :=
  ⟨min n (2 ^ 64 * 10 ^ 9 - 1), by omega⟩

/-- Whole seconds. -/
def ofSeconds (n : Nat) : Duration := saturating (n * 10 ^ 9)

/-- Whole milliseconds. -/
def ofMillis (n : Nat) : Duration := saturating (n * 10 ^ 6)

/-- Seconds and nanoseconds. -/
def ofParts (seconds nanos : Nat) : Duration := saturating (seconds * 10 ^ 9 + nanos)

/-- The whole seconds of a duration. -/
def seconds (d : Duration) : Nat := d.nanos / 10 ^ 9

/-- The nanoseconds past the last whole second. -/
def subsecond (d : Duration) : Nat := d.nanos % 10 ^ 9

/-- The whole milliseconds of a duration. -/
def millis (d : Duration) : Nat := d.nanos / 10 ^ 6

instance : LE Duration := ⟨fun a b => a.nanos ≤ b.nanos⟩
instance : LT Duration := ⟨fun a b => a.nanos < b.nanos⟩
instance (a b : Duration) : Decidable (a ≤ b) := inferInstanceAs (Decidable (a.nanos ≤ b.nanos))
instance (a b : Duration) : Decidable (a < b) := inferInstanceAs (Decidable (a.nanos < b.nanos))
instance : Min Duration := ⟨fun a b => if a ≤ b then a else b⟩

/-- A duration repeated, or the longest one. -/
def times (d : Duration) (n : Nat) : Duration := saturating (d.nanos * n)

/-- The duration nearest to a number of seconds, a tie to the even nanosecond. There is none for a
negative number, for one of `2 ^ 64` or more and for what is no number. -/
def ofDouble? (d : Double) : Option Duration :=
  match d.view with
  | .finite negative m e =>
    if negative ∧ m ≠ 0 then none
    else
      let num := if 0 ≤ e then m * 2 ^ e.toNat else m
      let den := if 0 ≤ e then 1 else 2 ^ (-e).toNat
      let n := Double.roundHalfEven (num * 10 ^ 9) den
      if h : n < 2 ^ 64 * 10 ^ 9 then some ⟨n, h⟩ else none
  | _ => none

/-- The digits after the point of a number of `10 ^ -width`, without trailing zeros. -/
def fractionDigits (width n : Nat) : List Char :=
  let ds := Nat.toDigits 10 n
  (List.replicate (width - ds.length) '0' ++ ds).reverse.dropWhile (· == '0') |>.reverse

/-- A count of units with a decimal fraction of `width` digits and the name of the unit. -/
def inUnit (width n : Nat) (unit : String) : String :=
  let whole := toString (n / 10 ^ width)
  let rest := n % 10 ^ width
  let fraction := if rest = 0 then "" else "." ++ String.ofList (fractionDigits width rest)
  whole ++ fraction ++ unit

/-- The text of a duration: the largest unit of which it holds one, with a decimal fraction. -/
def text (d : Duration) : String :=
  if 10 ^ 9 ≤ d.nanos then inUnit 9 d.nanos "s"
  else if 10 ^ 6 ≤ d.nanos then inUnit 6 d.nanos "ms"
  else if 10 ^ 3 ≤ d.nanos then inUnit 3 d.nanos "µs"
  else inUnit 0 d.nanos "ns"

end Duration

end Nsq
