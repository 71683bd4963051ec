import Nsq.Octets

/-!
# Bits of octets

A compressed stream is a run of bits, which lie in octets from the least significant to the most
significant one. Numbers in it start with their least significant bit. A `BitReader` takes bits off
the front of those that have arrived, and halts where they are too few or make no sense.
-/

namespace Nsq.Deflate

/-- The bits of an octet. -/
def bitsOfOctet (o : UInt8) : List Bool := (List.range 8).map o.toNat.testBit

/-- The bits of octets. -/
def bitsOf (b : Octets) : List Bool := b.flatMap bitsOfOctet

/-- The number that bits stand for. -/
def valueOf (bits : List Bool) : Nat := bits.foldr (fun bit n => bit.toNat + 2 * n) 0

/-- Why nothing could be read. -/
inductive Halt where
  /-- More bits are needed to tell. -/
  | unfinished
  /-- No bits that follow would make sense. -/
  | corrupt
deriving DecidableEq, Repr

/-- Takes something off the front of bits. -/
abbrev BitReader := StateT (List Bool) (Except Halt)

/-- Takes a number of `n` bits. -/
def number (n : Nat) : BitReader Nat := fun bits =>
  let taken := bits.take n
  if taken.length < n then .error .unfinished else .ok (valueOf taken, bits.drop n)

/-- Drops the bits up to the next octet. The bits that arrived come to whole octets. -/
def align : BitReader Unit := fun bits => .ok ((), bits.drop (bits.length % 8))

end Nsq.Deflate
