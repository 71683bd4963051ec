import Nsq.Command.Basic

/-!
# Handing commands to a writer

A writer is offered octets and takes some of them, from the front; how many is its own affair. What
is left is offered again until all is taken. A writer that takes none of the octets on offer is
full. The pieces of a command are handed over one after another, up to the first failure.

Octets in memory are a writer that takes whatever it is offered. A `Sink` takes octets until its
room is used up.
-/

namespace Nsq

/-- Something that octets can be written to. -/
class Writer (σ : Type) where
  /-- What was taken. -/
  taken : σ → Octets
  /-- Offers octets: how many of them are taken, or why none is, and the writer afterwards. -/
  offer : σ → Octets → Except IoFault Nat × σ
  /-- No more is taken than is on offer, and it is taken from the front. -/
  offer_ok : ∀ {w w' : σ} {b : Octets} {n : Nat},
    offer w b = (.ok n, w') → n ≤ b.length ∧ taken w' = taken w ++ b.take n
  /-- A writer that fails takes nothing. -/
  offer_error : ∀ {w w' : σ} {b : Octets} {fault : IoFault},
    offer w b = (.error fault, w') → taken w' = taken w

namespace Writer

variable {σ : Type}

/-- Goes on with the writer that is left, unless there was a failure. -/
def andThen (r : Except IoFault Unit × σ) (next : σ → Except IoFault Unit × σ) :
    Except IoFault Unit × σ :=
  match r with
  | (.ok (), w) => next w
  | (.error fault, w) => (.error fault, w)

variable [Writer σ]

/-- Offers octets until all of them are taken. -/
def writeAll (w : σ) (b : Octets) : Except IoFault Unit × σ :=
  match b with
  | [] => (.ok (), w)
  | o :: rest =>
    match offer w (o :: rest) with
    | (.error fault, w) => (.error fault, w)
    | (.ok 0, w) => (.error .fullWriter, w)
    | (.ok (n + 1), w) => writeAll w (rest.drop n)
termination_by b.length

/-- Hands pieces over one after another, up to the first failure. -/
def writePieces (w : σ) : List Octets → Except IoFault Unit × σ
  | [] => (.ok (), w)
  | p :: ps => andThen (writeAll w p) fun w => writePieces w ps

end Writer

/-- Octets in memory take whatever they are offered. -/
instance : Writer Octets where
  taken w := w
  offer w b := (.ok b.length, w ++ b)
  offer_ok h := by
    obtain ⟨hn, rfl⟩ := Prod.mk.inj h
    obtain rfl := Except.ok.inj hn
    exact ⟨Nat.le_refl _, by rw [List.take_length]⟩
  offer_error h := nomatch h

/-- A writer that takes octets until its room is used up. -/
structure Sink where
  /-- What was taken. -/
  taken : Octets := []
  /-- How many octets it still takes. -/
  room : Nat
deriving DecidableEq, Repr

instance : Writer Sink where
  taken := Sink.taken
  offer w b :=
    let n := min b.length w.room
    (.ok n, ⟨w.taken ++ b.take n, w.room - n⟩)
  offer_ok h := by
    obtain ⟨hn, rfl⟩ := Prod.mk.inj h
    obtain rfl := Except.ok.inj hn
    exact ⟨Nat.min_le_left _ _, rfl⟩
  offer_error h := nomatch h

namespace Command

variable {σ : Type} [Writer σ]

/-- Hands a command over piece by piece. The line is under way before the body is found too long. -/
def handTo (c : Command) (w : σ) : Except IoFault Unit × σ :=
  Writer.andThen (Writer.writePieces w c.linePieces) fun w =>
    if c.fits then Writer.writePieces w c.bodyPieces else (.error .oversizeBody, w)

/-- Hands commands over one after another, up to the first failure. -/
def handAll (w : σ) : List Command → Except IoFault Unit × σ
  | [] => (.ok (), w)
  | c :: cs => Writer.andThen (c.handTo w) fun w => handAll w cs

/-- Hands a command to a writer with so much room. -/
def writeTo (c : Command) (w : Sink) : Except IoFault Unit × Sink :=
  c.handTo w

end Command

end Nsq
