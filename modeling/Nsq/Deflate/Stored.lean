import Nsq.Octets

/-!
# Writing a compressed stream

Octets may stand in a compressed stream as they are, in blocks of limited length. Such blocks end
where an octet ends, so that everything written so far can be read at once.
-/

namespace Nsq.Deflate

/-- The greatest length of a stored block. -/
def maxStored : Nat := 65535

/-- A number below 2¹⁶ as two octets, the less significant one first. -/
def littleWord (n : Nat) : Octets := (Octets.word 2 n).reverse

/-- A stored block that is not the last one of its stream. -/
def storedBlock (b : Octets) : Octets :=
  0 :: littleWord b.length ++ littleWord (maxStored - b.length) ++ b

/-- Octets in stored blocks. -/
def stored (b : Octets) : Octets :=
  if _h : b = [] then [] else storedBlock (b.take maxStored) ++ stored (b.drop maxStored)
termination_by b.length
decreasing_by
  have : 0 < b.length := List.length_pos_iff.2 _h
  simp only [List.length_drop, maxStored]
  omega

end Nsq.Deflate
