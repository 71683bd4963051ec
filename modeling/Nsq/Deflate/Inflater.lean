import Nsq.Deflate.Block

/-!
# Reading a compressed stream

An `Inflater` takes compressed octets as they arrive and gives what they stand for as far as that is
certain. It goes from item to item, and an item of which some bits are missing is left until they
have arrived.

The parts of a turn are inlined into the run, which then owns the window and can change it in place.
-/

namespace Nsq.Deflate

/-- Where a stream stands. -/
inductive Phase where
  /-- Between blocks. -/
  | boundary
  /-- In a stored block with so many octets left. -/
  | stored (left : Nat)
  /-- In a coded block. -/
  | coded (symbols distances : Code)
  /-- Behind the last block. -/
  | finished
  /-- At octets that make no sense. -/
  | corrupt

/-- A reader of a compressed stream. -/
structure Inflater where
  /-- Where the stream stands. -/
  phase : Phase := .boundary
  /-- Whether the block under way is the last one. -/
  last : Bool := false
  /-- The bits that were not read yet. -/
  bits : List Bool := []
  /-- The octets that copies may reach back to. -/
  window : Array UInt8 := #[]

namespace Inflater

/-- How far copies reach back. -/
def reach : Nat := 32768

/-- Keeps no more of the window than is needed, from time to time. -/
@[inline] def trim (window : Array UInt8) : Array UInt8 :=
  if 2 * reach < window.size then window.extract (window.size - reach) window.size else window

/-- Gives octets. -/
@[inline] def give (b : Octets) (z : Inflater) : Octets × Inflater :=
  (b, { z with window := trim (b.foldl Array.push z.window) })

/-- The octets of a copy, which comes round to its own beginning if it is longer than far. -/
def copied (distance length : Nat) (window : Array UInt8) : Octets :=
  (List.range length).map fun k => (window[window.size - distance + k % distance]?).getD 0

/-- The block under way has ended. -/
@[inline] def endBlock (z : Inflater) : Inflater :=
  { z with phase := if z.last then .finished else .boundary }

/-- Takes the octets at hand of a stored block. -/
@[inline] def takeStored (left : Nat) (z : Inflater) : Option (Octets × Inflater) :=
  match (min left (z.bits.length / 8)) with
  | 0 => none
  | n + 1 =>
    let b := (List.range (n + 1)).map fun k => UInt8.ofNat (valueOf ((z.bits.drop (8 * k)).take 8))
    let (b, z) := { z with bits := z.bits.drop (8 * (n + 1)) }.give b
    some (b, if left = n + 1 then z.endBlock else { z with phase := .stored (left - (n + 1)) })

/-- Reads something; nothing comes of it as long as bits are missing. -/
@[inline] def reading {α : Type} (r : BitReader α) (take : α → Inflater → Octets × Inflater)
    (z : Inflater) : Option (Octets × Inflater) :=
  match r z.bits with
  | .error .unfinished => none
  | .error .corrupt => some ([], { z with phase := .corrupt })
  | .ok (a, bits) => some (take a { z with bits := bits })

/-- The beginning of a block was read. -/
@[inline] def enter (h : Bool × Heading) (z : Inflater) : Octets × Inflater :=
  let z := { z with last := h.1 }
  match h.2 with
  | .stored 0 => ([], z.endBlock)
  | .stored n => ([], { z with phase := .stored n })
  | .coded symbols distances => ([], { z with phase := .coded symbols distances })

/-- An item was read. -/
@[inline] def accept (i : Item) (z : Inflater) : Octets × Inflater :=
  match i with
  | .octet o => z.give [o]
  | .ending => ([], z.endBlock)
  | .copy length distance =>
    if z.window.size < distance then ([], { z with phase := .corrupt })
    else z.give (copied distance length z.window)

/-- One turn of reading, if there is something to read. -/
@[inline] def turn (z : Inflater) : Option (Octets × Inflater) :=
  match z.phase with
  | .boundary => z.reading heading enter
  | .stored left => z.takeStored left
  | .coded symbols distances => z.reading (item symbols distances) accept
  | .finished | .corrupt => none

/-- At most `fuel` turns of reading. -/
def run : (fuel : Nat) → Inflater → Octets × Inflater
  | 0, z => ([], z)
  | fuel + 1, z =>
    match z.turn with
    | none => ([], z)
    | some (b, z) =>
      let (more, z) := run fuel z
      (b ++ more, z)

/-- Compressed octets arrive. Every turn takes a bit or is the last one. -/
def push (b : Octets) (z : Inflater) : Octets × Inflater :=
  let z := { z with bits := z.bits ++ bitsOf b }
  z.run (z.bits.length + 1)

/-- Whether octets have arrived that make no sense. -/
def isCorrupt (z : Inflater) : Bool :=
  match z.phase with
  | .corrupt => true
  | _ => false

end Inflater

end Nsq.Deflate
