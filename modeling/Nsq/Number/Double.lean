import Nsq.Number.Word

/-!
# Binary64 numbers

A `Double` is its 64 bits. `Double.view` decodes them to a sign, a whole significand and a power of
two, and `Double.ofRatio` rounds an exact ratio to the nearest double, a tie to the even
significand. Every operation is an exact computation on whole numbers followed by one such
rounding, so no arithmetic of the machine enters.
-/

namespace Nsq

/-- A binary64 number, by its bits. -/
structure Double where
  /-- The sign, eleven bits of exponent and fifty-two of significand. -/
  bits : UInt64
deriving DecidableEq, Repr, Inhabited

namespace Double

/-- What the bits of a double stand for. -/
inductive View where
  /-- Not a number. -/
  | nan
  /-- An infinity. -/
  | infinite (negative : Bool)
  /-- The number `±significand · 2 ^ exponent`. -/
  | finite (negative : Bool) (significand : Nat) (exponent : Int)
deriving DecidableEq, Repr

/-- Decodes a double. -/
def view (d : Double) : View :=
  let n := d.bits.toNat
  let negative := decide (2 ^ 63 ≤ n)
  let power : Nat := n / 2 ^ 52 % 2 ^ 11
  let fraction := n % 2 ^ 52
  if power = 2047 then (if fraction = 0 then .infinite negative else .nan)
  else if power = 0 then .finite negative fraction (-1074)
  else .finite negative (2 ^ 52 + fraction) (Int.ofNat power - 1075)

/-- Puts a sign in front of the other 63 bits. -/
private def signed (negative : Bool) (rest : Nat) : Double :=
  ⟨UInt64.ofNat ((if negative then 2 ^ 63 else 0) + rest)⟩

/-- The infinity of a sign. -/
def infinity (negative : Bool) : Double :=
  signed negative (2047 * 2 ^ 52)

/-- The zero of a sign. -/
def zero (negative : Bool) : Double :=
  signed negative 0

/-- The quiet value of a sign that is not a number. -/
def notANumber (negative : Bool) : Double :=
  signed negative (2047 * 2 ^ 52 + 2 ^ 51)

/-- The whole number nearest to `num / den`, a tie to the even one. -/
def roundHalfEven (num den : Nat) : Nat :=
  let q := num / den
  let r := num % den
  if 2 * r < den then q
  else if den < 2 * r then q + 1
  else q + q % 2

/-- `num / den` in units of `2 ^ e`, as a ratio. -/
private def inUnits (num den : Nat) (e : Int) : Nat × Nat :=
  if 0 ≤ e then (num, den * 2 ^ e.toNat) else (num * 2 ^ (-e).toNat, den)

/-- The double nearest to `±num / den`, a tie to the even significand; a magnitude past the largest
double by half a unit or more becomes infinite. -/
def ofRatio (negative : Bool) (num den : Nat) : Double :=
  if num = 0 ∨ den = 0 then zero negative
  else
    let low : Int := max ((num.log2 : Int) - den.log2 - 53) (-1074)
    let (n, d) := inUnits num den low
    let e := if n / d < 2 ^ 53 then low else low + 1
    let (n, d) := inUnits num den e
    let m := roundHalfEven n d
    let packed := if m < 2 ^ 52 then m else (e + 1075).toNat * 2 ^ 52 + (m - 2 ^ 52)
    if 2047 * 2 ^ 52 ≤ packed then infinity negative else signed negative packed

/-- The double nearest to `±significand · 2 ^ exponent`. -/
def ofScaled (negative : Bool) (significand : Nat) (exponent : Int) : Double :=
  if 0 ≤ exponent then ofRatio negative (significand * 2 ^ exponent.toNat) 1
  else ofRatio negative significand (2 ^ (-exponent).toNat)

/-- The double nearest to a whole number. -/
def ofInt (i : Int) : Double :=
  ofRatio (i < 0) i.natAbs 1

/-- The double nearest to `±digits · 10 ^ exponent`. Exponents far outside the range of doubles are
settled by their size alone. -/
def ofDecimal (negative : Bool) (digits : Nat) (exponent : Int) : Double :=
  let top : Int := (Nat.toDigits 10 digits).length + exponent
  if digits = 0 ∨ top < -400 then zero negative
  else if 400 < top then infinity negative
  else if 0 ≤ exponent then ofRatio negative (digits * 10 ^ exponent.toNat) 1
  else ofRatio negative digits (10 ^ (-exponent).toNat)

/-- The product, rounded to the nearest double. -/
def mul (a b : Double) : Double :=
  match a.view, b.view with
  | .nan, _ | _, .nan => notANumber false
  | .infinite s, .infinite t => infinity (s != t)
  | .infinite s, .finite t m _ | .finite t m _, .infinite s =>
    if m = 0 then notANumber false else infinity (s != t)
  | .finite s m e, .finite t n f => ofScaled (s != t) (m * n) (e + f)

/-- The sum, rounded to the nearest double; an exact zero is negative only if both terms are. -/
def add (a b : Double) : Double :=
  match a.view, b.view with
  | .nan, _ | _, .nan => notANumber false
  | .infinite s, .infinite t => if s = t then infinity s else notANumber false
  | .infinite s, _ | _, .infinite s => infinity s
  | .finite s m e, .finite t n f =>
    let low := min e f
    let term (negative : Bool) (k : Nat) (g : Int) : Int :=
      let whole : Int := k * 2 ^ (g - low).toNat
      if negative then -whole else whole
    let sum := term s m e + term t n f
    if sum = 0 then zero (s && t) else ofScaled (sum < 0) sum.natAbs low

instance : Mul Double := ⟨mul⟩
instance : Add Double := ⟨add⟩

/-- The whole number of a finite double, without its fraction. -/
def truncate? (d : Double) : Option Int :=
  match d.view with
  | .finite negative m e =>
    let whole := if 0 ≤ e then m * 2 ^ e.toNat else m / 2 ^ (-e).toNat
    some (if negative then -(whole : Int) else whole)
  | _ => none

/-- The whole number that a double is, if it is one. -/
def whole? (d : Double) : Option Int :=
  match d.view with
  | .finite _ m e => if 0 ≤ e ∨ m % 2 ^ (-e).toNat = 0 then d.truncate? else none
  | _ => none

/-- Whether a double lies between zero and one, both included; zero may have either sign. -/
def inUnitInterval (d : Double) : Bool :=
  match d.view with
  | .finite negative m e =>
    m = 0 || (!negative && (if 0 ≤ e then m * 2 ^ e.toNat ≤ 1 else m ≤ 2 ^ (-e).toNat))
  | _ => false

end Double

end Nsq
