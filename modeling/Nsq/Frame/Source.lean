import Nsq.Frame.Basic

/-!
# Reading frames from a source

A source hands out octets in pieces, one piece at most per read. `Source.take` reads until it has
the wanted number of octets or the source ends, so how the octets are cut into pieces does not
matter; frames are read on top of it.
-/

namespace Nsq

/-- The octets that a reader will still find, cut into what single reads find at hand. -/
structure Source where
  /-- The pieces, the next one first. -/
  pieces : List Octets
deriving Repr

namespace Source

/-- All octets of a source. -/
def octets (s : Source) : Octets := s.pieces.flatten

/-- Octets cut into pieces of `size`, the last one perhaps shorter. A reader that finds nothing at
every read is at its end from the start. -/
def cut (size : Nat) (b : Octets) : List Octets :=
  if _h : 0 < size ∧ b ≠ [] then b.take size :: cut size (b.drop size) else []
termination_by b.length
decreasing_by
  have : 0 < b.length := List.length_pos_iff.2 _h.2
  simp only [List.length_drop]
  omega

/-- A source of octets that come in pieces of `size`. -/
def ofOctets (size : Nat) (b : Octets) : Source := ⟨cut size b⟩

/-- Reads `n` octets from pieces; what a failed read has taken is gone. -/
def takeFrom : (n : Nat) → List Octets → Option Octets × List Octets
  | 0, ps => (some [], ps)
  | _ + 1, [] => (none, [])
  | n + 1, p :: ps =>
    if n + 1 < p.length then (some (p.take (n + 1)), p.drop (n + 1) :: ps)
    else
      let (more, rest) := takeFrom (n + 1 - p.length) ps
      (more.map (p ++ ·), rest)

/-- Reads exactly `n` octets. -/
def take (n : Nat) (s : Source) : Except IoFault Octets × Source :=
  match takeFrom n s.pieces with
  | (some b, rest) => (.ok b, ⟨rest⟩)
  | (none, rest) => (.error .shortRead, ⟨rest⟩)

/-- Reads a size and as many octets. -/
def readPayload (maxSize : Nat) (s : Source) : Except IoFault Octets × Source :=
  match s.take 4 with
  | (.error fault, s) => (.error fault, s)
  | (.ok size, s) =>
    match Frame.checkSize maxSize (Octets.toInt size) with
    | .error fault => (.error fault, s)
    | .ok n => s.take n

/-- Reads a frame. -/
def readFrame (maxSize : Nat) (s : Source) : Except IoFault Frame × Source :=
  match s.readPayload maxSize with
  | (.error fault, s) => (.error fault, s)
  | (.ok payload, s) => (Frame.ofPayload payload, s)

end Source

end Nsq
