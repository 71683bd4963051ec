import Nsq.Number.Word

/-!
# Octets and big-endian words

The wire carries octets, and every number on it is a big-endian word. `Octets.word width n` writes
the low `width` octets of `n` and `Octets.toNat` reads any run of them back; signed words are read
by `Octets.toInt` as two's complement.
-/

namespace Nsq

/-- A run of octets, in the order in which they travel. -/
abbrev Octets := List UInt8

namespace Octets

/-- The value of a run of octets, the first one most significant. -/
def toNat (b : Octets) : Nat :=
  b.foldl (fun n o => n * 256 + o.toNat) 0

/-- The two's-complement value of a run of octets, the first one most significant. -/
def toInt (b : Octets) : Int :=
  let n := b.toNat
  if 2 * n < 256 ^ b.length then n else (n : Int) - 256 ^ b.length

/-- The low `width` octets of `n`, most significant first. -/
def word : (width : Nat) → (n : Nat) → Octets
  | 0, _ => []
  | width + 1, n => UInt8.ofNat (n / 256 ^ width) :: word width n

/-- The four octets of a signed word. -/
def signed32 (i : Int) : Octets :=
  word 4 (i % 2 ^ 32).toNat

@[simp] theorem length_word (width n : Nat) : (word width n).length = width := by
  induction width with
  | zero => rfl
  | succ width ih => simp [word, ih]

/-- The octets of a text in UTF-8. -/
def ofString (s : String) : Octets :=
  s.toByteArray.data.toList

/-! ### Hexadecimal -/

/-- The lower-case digit of a number below sixteen. -/
def hexDigit (n : Nat) : Char :=
  if n < 10 then Char.ofNat ('0'.toNat + n) else Char.ofNat ('a'.toNat + (n - 10))

/-- The two lower-case digits of an octet. -/
def hexPair (o : UInt8) : List Char :=
  [hexDigit (o.toNat / 16), hexDigit (o.toNat % 16)]

/-- Octets as lower-case hexadecimal digits, two each. -/
def toHex (b : Octets) : String :=
  String.ofList (b.flatMap hexPair)

/-- The number that a hexadecimal digit of either case stands for. -/
def hexValue (c : Char) : Option Nat :=
  if '0' ≤ c ∧ c ≤ '9' then some (c.toNat - '0'.toNat)
  else if 'a' ≤ c ∧ c ≤ 'f' then some (c.toNat - 'a'.toNat + 10)
  else if 'A' ≤ c ∧ c ≤ 'F' then some (c.toNat - 'A'.toNat + 10)
  else none

/-- Reads octets written as pairs of hexadecimal digits. -/
def ofHexDigits : List Char → Option Octets
  | [] => some []
  | [_] => none
  | h :: l :: rest => do
    let high ← hexValue h
    let low ← hexValue l
    let more ← ofHexDigits rest
    pure (UInt8.ofNat (high * 16 + low) :: more)

/-- Reads octets written as pairs of hexadecimal digits. -/
def ofHex? (s : String) : Option Octets :=
  ofHexDigits s.toList

/-- The first `max` octets as digit pairs parted by blanks; an ellipsis stands for the rest. -/
def preview (b : Octets) (max : Nat) : String :=
  let shown := String.intercalate " " ((b.take max).map fun o => String.ofList (hexPair o))
  if max < b.length then shown ++ " ..." else shown

end Octets

end Nsq
