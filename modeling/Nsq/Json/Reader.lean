import Nsq.Octets
import Nsq.Text.Utf8

/-!
# Reading JSON

`Json.parse` reads a JSON text from octets into a value. What nobody asks for is only checked for
its shape: a number that is not plainly whole keeps no value, and a string whose octets are not
well formed, or which names half of a surrogate pair, is kept as unreadable rather than refused.
-/

namespace Nsq

/-- A JSON value. -/
inductive Json where
  /-- The null value. -/
  | null
  /-- A truth value. -/
  | bool (b : Bool)
  /-- A number written without fraction and exponent, other than the negative zero. -/
  | int (i : Int)
  /-- Any other number. -/
  | real
  /-- A string; none if it cannot be read as text. -/
  | string (s : Option String)
  /-- An array. -/
  | array (items : List Json)
  /-- An object, its members in order; the keys are strings. -/
  | object (members : List (Option String × Json))

namespace Json

/-- Whether an octet is white space between tokens. -/
def isSpace (o : UInt8) : Bool :=
  o == 0x20 || o == 0x0A || o == 0x0D || o == 0x09

/-- Drops white space. -/
def skipSpace (b : Octets) : Octets := b.dropWhile isSpace

/-! ### Strings -/

/-- A part of a string: an octet, or sixteen bits named by an escape. -/
inductive Piece where
  /-- An octet that stands for itself, or for which an escape has a letter. -/
  | octet (o : UInt8)
  /-- A number of four hexadecimal digits. -/
  | unit (n : Nat)
deriving DecidableEq, Repr

/-- The octet that the letter of an escape stands for. -/
def escaped? (o : UInt8) : Option UInt8 :=
  if o = 0x22 ∨ o = 0x5C ∨ o = 0x2F then some o
  else if o = 0x62 then some 0x08
  else if o = 0x66 then some 0x0C
  else if o = 0x6E then some 0x0A
  else if o = 0x72 then some 0x0D
  else if o = 0x74 then some 0x09
  else none

/-- The value of an octet as a hexadecimal digit. -/
def hexOctet? (o : UInt8) : Option Nat :=
  Octets.hexValue (Char.ofNat o.toNat)

/-- The number of four hexadecimal digits. -/
def unit? (a b c d : UInt8) : Option Nat := do
  let a ← hexOctet? a
  let b ← hexOctet? b
  let c ← hexOctet? c
  let d ← hexOctet? d
  pure (((a * 16 + b) * 16 + c) * 16 + d)

/-- The parts of a string up to its closing quote, and what follows it. Controls are refused. -/
def pieces : Octets → Option (List Piece × Octets)
  | [] => none
  | o :: rest =>
    if o = 0x22 then some ([], rest)
    else if o = 0x5C then
      match rest with
      | 0x75 :: a :: b :: c :: d :: rest => do
        let n ← unit? a b c d
        let (ps, rest) ← pieces rest
        pure (.unit n :: ps, rest)
      | e :: rest => do
        let o ← escaped? e
        let (ps, rest) ← pieces rest
        pure (.octet o :: ps, rest)
      | [] => none
    else if o < 0x20 then none
    else do
      let (ps, rest) ← pieces rest
      pure (.octet o :: ps, rest)

/-- Whether a number is the first half of a surrogate pair. -/
def isHighSurrogate (n : Nat) : Bool := 0xD800 ≤ n && n < 0xDC00

/-- Whether a number is the second half of a surrogate pair. -/
def isLowSurrogate (n : Nat) : Bool := 0xDC00 ≤ n && n < 0xE000

/-- The octets that the parts of a string spell; halves of surrogate pairs must stand together. -/
def spelled : List Piece → Option Octets
  | [] => some []
  | .octet o :: ps => (spelled ps).map (o :: ·)
  | .unit n :: ps =>
    if isHighSurrogate n then
      match ps with
      | .unit l :: ps =>
        if isLowSurrogate l then
          let c := Char.ofNat (0x10000 + (n - 0xD800) * 0x400 + (l - 0xDC00))
          (spelled ps).map (Octets.ofString (String.singleton c) ++ ·)
        else none
      | _ => none
    else if isLowSurrogate n then none
    else (spelled ps).map (Octets.ofString (String.singleton (Char.ofNat n)) ++ ·)

/-- Reads a string behind its opening quote. -/
def readString (b : Octets) : Option (Option String × Octets) :=
  (pieces b).map fun (ps, rest) => ((spelled ps).bind Octets.text?, rest)

/-! ### Numbers -/

/-- Whether an octet is a decimal digit. -/
def isDigitOctet (o : UInt8) : Bool := 0x30 ≤ o && o ≤ 0x39

/-- The number that decimal digits spell. -/
def digitsValue (b : Octets) : Nat :=
  b.foldl (fun n o => n * 10 + (o.toNat - 0x30)) 0

/-- Reads one digit or more. -/
def readDigitRun (b : Octets) : Option (Octets × Octets) :=
  let ds := b.takeWhile isDigitOctet
  if ds.isEmpty then none else some (ds, b.dropWhile isDigitOctet)

/-- Reads the digits in front of a point: a zero stands alone. -/
def readWhole : Octets → Option (Octets × Octets)
  | [] => none
  | 0x30 :: rest =>
    match rest with
    | [] => some ([0x30], [])
    | o :: _ => if isDigitOctet o then none else some ([0x30], rest)
  | b => readDigitRun b

/-- Passes over a fraction; tells whether there is one. -/
def readFraction : Octets → Option (Bool × Octets)
  | 0x2E :: rest => (readDigitRun rest).map fun (_, rest) => (true, rest)
  | b => some (false, b)

/-- Passes over an exponent; tells whether there is one. -/
def readPower : Octets → Option (Bool × Octets)
  | [] => some (false, [])
  | o :: rest =>
    if o = 0x65 ∨ o = 0x45 then
      let rest := match rest with
        | 0x2B :: rest => rest
        | 0x2D :: rest => rest
        | rest => rest
      (readDigitRun rest).map fun (_, rest) => (true, rest)
    else some (false, o :: rest)

/-- Reads a number behind its sign. -/
def readUnsigned (negative : Bool) (b : Octets) : Option (Json × Octets) := do
  let (ds, rest) ← readWhole b
  let (fraction, rest) ← readFraction rest
  let (power, rest) ← readPower rest
  let n := digitsValue ds
  let value :=
    if fraction || power || (negative && n == 0) then real
    else if negative then int (-(n : Int))
    else int n
  pure (value, rest)

/-! ### Values -/

/-- Reads the given octets. -/
def readWord : (word b : Octets) → Option Octets
  | [], b => some b
  | _ :: _, [] => none
  | w :: ws, o :: rest => if w = o then readWord ws rest else none

mutual

/-- Reads a value; `fuel` bounds the nesting. -/
def readValue : (fuel : Nat) → Octets → Option (Json × Octets)
  | 0, _ => none
  | fuel + 1, b =>
    match skipSpace b with
    | [] => none
    | o :: rest =>
      if o = 0x6E then (readWord (Octets.ofString "ull") rest).map fun rest => (null, rest)
      else if o = 0x74 then
        (readWord (Octets.ofString "rue") rest).map fun rest => (bool true, rest)
      else if o = 0x66 then
        (readWord (Octets.ofString "alse") rest).map fun rest => (bool false, rest)
      else if o = 0x2D then readUnsigned true rest
      else if isDigitOctet o then readUnsigned false (o :: rest)
      else if o = 0x22 then (readString rest).map fun (s, rest) => (string s, rest)
      else if o = 0x5B then
        match skipSpace rest with
        | 0x5D :: rest => some (array [], rest)
        | rest => (readItems fuel rest).map fun (items, rest) => (array items, rest)
      else if o = 0x7B then
        match skipSpace rest with
        | 0x7D :: rest => some (object [], rest)
        | rest => (readMembers fuel rest).map fun (members, rest) => (object members, rest)
      else none

/-- Reads the items of an array and its closing bracket. -/
def readItems : (fuel : Nat) → Octets → Option (List Json × Octets)
  | 0, _ => none
  | fuel + 1, b => do
    let (item, rest) ← readValue fuel b
    match skipSpace rest with
    | 0x5D :: rest => pure ([item], rest)
    | 0x2C :: rest =>
      let (items, rest) ← readItems fuel rest
      pure (item :: items, rest)
    | _ => none

/-- Reads the members of an object and its closing brace. -/
def readMembers : (fuel : Nat) → Octets → Option (List (Option String × Json) × Octets)
  | 0, _ => none
  | fuel + 1, b =>
    match skipSpace b with
    | 0x22 :: rest => do
      let (key, rest) ← readString rest
      match skipSpace rest with
      | 0x3A :: rest =>
        let (value, rest) ← readValue fuel rest
        match skipSpace rest with
        | 0x7D :: rest => pure ([(key, value)], rest)
        | 0x2C :: rest =>
          let (members, rest) ← readMembers fuel rest
          pure ((key, value) :: members, rest)
        | _ => none
      | _ => none
    | _ => none

end

/-- Reads a JSON text; nothing but white space may follow the value. Every call takes an octet or
ends, so twice as much fuel as octets is enough. -/
def parse (b : Octets) : Option Json := do
  let (value, rest) ← readValue (2 * b.length + 2) b
  if (skipSpace rest).isEmpty then pure value else none

end Json

end Nsq
