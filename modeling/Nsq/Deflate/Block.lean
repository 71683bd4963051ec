import Nsq.Deflate.Code

/-!
# Blocks of a compressed stream

A block is stored as it is, or coded: a run of symbols that stand for octets, for copies of what
came before, and for the end of the block. The codes of a block are the fixed ones, or they are
given at its beginning, as lengths which are themselves coded.
-/

namespace Nsq.Deflate

/-- How a block begins. -/
inductive Heading where
  /-- So many octets follow as they are. -/
  | stored (length : Nat)
  /-- Symbols of codes follow. -/
  | coded (symbols distances : Code)

/-! ### Codes of a block -/

/-- The lengths of the fixed code for octets and lengths of copies. -/
def fixedSymbolLengths : List Nat :=
  List.replicate 144 8 ++ List.replicate 112 9 ++ List.replicate 24 7 ++ List.replicate 8 8

/-- The fixed code for octets and lengths of copies. -/
def fixedSymbols : Code := (Code.ofLengths fixedSymbolLengths).getD .hole

/-- The fixed code for distances. -/
def fixedDistances : Code := (Code.ofLengths (List.replicate 32 5)).getD .hole

/-- The order in which the lengths of the code for lengths are given. -/
def lengthOrder : List Nat := [16, 17, 18, 0, 8, 7, 9, 6, 10, 5, 11, 4, 12, 3, 13, 2, 14, 1, 15]

/-- Takes `n` numbers of three bits each. -/
def triples : (n : Nat) → BitReader (List Nat)
  | 0 => pure []
  | n + 1 => do
    let length ← number 3
    let more ← triples n
    pure (length :: more)

/-- Builds a code. -/
def build (lengths : List Nat) : BitReader Code :=
  match Code.ofLengths lengths with
  | some code => pure code
  | none => throw .corrupt

/-- Takes the code for lengths, of which the first `n` in order are given. -/
def lengthCode (n : Nat) : BitReader Code := do
  let given ← triples n
  build ((List.range 19).map fun s =>
    (((lengthOrder.zip given).find? fun e => e.1 == s).map Prod.snd).getD 0)

/-- Takes `total` lengths, in at most `fuel` turns; `got` holds those that were taken, the last one
first. Some symbols repeat the last length, or a zero. -/
def lengths (code : Code) (total : Nat) : (fuel : Nat) → (got : List Nat) → BitReader (List Nat)
  | 0, _ => throw .corrupt
  | fuel + 1, got => do
    if got.length = total then return got.reverse
    if total < got.length then throw .corrupt
    match ← code.read with
    | 16 =>
      match got with
      | [] => throw .corrupt
      | last :: _ => lengths code total fuel (List.replicate (3 + (← number 2)) last ++ got)
    | 17 => lengths code total fuel (List.replicate (3 + (← number 3)) 0 ++ got)
    | 18 => lengths code total fuel (List.replicate (11 + (← number 7)) 0 ++ got)
    | length => lengths code total fuel (length :: got)

/-- Takes the codes given at the beginning of a block. -/
def givenCodes : BitReader Heading := do
  let symbols := 257 + (← number 5)
  let distances := 1 + (← number 5)
  let code ← lengthCode (4 + (← number 4))
  if 286 < symbols || 30 < distances then throw .corrupt
  let all ← lengths code (symbols + distances) (symbols + distances + 1) []
  pure (.coded (← build (all.take symbols)) (← build (all.drop symbols)))

/-- Takes the length of a stored block, which is given twice, the second time with all bits
changed. -/
def storedLength : BitReader Heading := do
  align
  let length ← number 16
  let check ← number 16
  if length + check = 65535 then pure (.stored length) else throw .corrupt

/-- Takes the beginning of a block: whether it is the last one, and how it goes on. -/
def heading : BitReader (Bool × Heading) := do
  let last ← number 1
  match ← number 2 with
  | 0 => pure (last == 1, ← storedLength)
  | 1 => pure (last == 1, .coded fixedSymbols fixedDistances)
  | 2 => pure (last == 1, ← givenCodes)
  | _ => throw .corrupt

/-! ### Symbols -/

/-- What symbols stand for. -/
inductive Item where
  /-- An octet. -/
  | octet (o : UInt8)
  /-- As many octets as `length` from `distance` octets back. -/
  | copy (length distance : Nat)
  /-- The end of the block. -/
  | ending
deriving DecidableEq, Repr

/-- Takes the length of a copy, of which the symbol gives the rough size. -/
def copyLength (s : Nat) : BitReader Nat :=
  if s < 265 then pure (s - 254)
  else if s < 285 then do
    let extra := (s - 261) / 4
    pure (3 + ((s - 261) % 4 + 4) * 2 ^ extra + (← number extra))
  else if s = 285 then pure 258
  else throw .corrupt

/-- Takes the distance of a copy, of which the symbol gives the rough size. -/
def copyDistance (s : Nat) : BitReader Nat :=
  if s < 4 then pure (s + 1)
  else if s < 30 then do
    let extra := s / 2 - 1
    pure (1 + (s % 2 + 2) * 2 ^ extra + (← number extra))
  else throw .corrupt

/-- Takes an item of a coded block. -/
def item (symbols distances : Code) : BitReader Item := do
  let s ← symbols.read
  if s < 256 then pure (.octet (UInt8.ofNat s))
  else if s = 256 then pure .ending
  else
    let length ← copyLength s
    pure (.copy length (← copyDistance (← distances.read)))

end Nsq.Deflate
