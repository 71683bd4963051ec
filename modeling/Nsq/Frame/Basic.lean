import Nsq.Octets
import Nsq.Fault

/-!
# Frames

The daemon sends frames: a signed size of four octets, which counts what follows, a type of four
octets, and data. `Frame.encode` writes a frame and `Frame.ofPayload` reads what stands behind a
size. `Frame.limit` bounds the sizes that are admitted at all.
-/

namespace Nsq

/-- What a frame carries. -/
inductive FrameKind where
  /-- The answer to a command. -/
  | response
  /-- The refusal of a command. -/
  | error
  /-- A message of the subscribed channel. -/
  | message
deriving DecidableEq, Repr

namespace FrameKind

/-- The number of a kind on the wire. -/
def code : FrameKind → Nat
  | response => 0
  | error => 1
  | message => 2

/-- The kind of a number on the wire. -/
def ofCode (i : Int) : Except IoFault FrameKind :=
  if i = 0 then .ok .response
  else if i = 1 then .ok .error
  else if i = 2 then .ok .message
  else .error (.unknownFrameType i)

end FrameKind

/-- A frame without its size. -/
structure Frame where
  /-- What the frame carries. -/
  kind : FrameKind
  /-- The octets behind the type. -/
  data : Octets
deriving DecidableEq, Repr

namespace Frame

/-- The octets of a frame behind its size. -/
def payload (f : Frame) : Octets :=
  Octets.word 4 f.kind.code ++ f.data

/-- The octets of a frame. -/
def encode (f : Frame) : Octets :=
  Octets.word 4 f.payload.length ++ f.payload

/-- Reads the octets behind a size: four for the type, the others are data. -/
def ofPayload (b : Octets) : Except IoFault Frame :=
  if b.length < 4 then .error .truncatedFrame
  else
    match FrameKind.ofCode (Octets.toInt (b.take 4)) with
    | .error fault => .error fault
    | .ok kind => .ok ⟨kind, b.drop 4⟩

/-! ### Data of meaning -/

/-- What the daemon answers when all is well. -/
def okData : Octets := Octets.ofString "OK"

/-- What the daemon sends to see whether its client is alive. -/
def heartbeatData : Octets := Octets.ofString "_heartbeat_"

/-- What the daemon answers when it will send no more messages. -/
def closeWaitData : Octets := Octets.ofString "CLOSE_WAIT"

/-- Whether data says that no more messages will come. -/
def isCloseWait (data : Octets) : Bool := data == closeWaitData

/-! ### Sizes -/

/-- The greatest size admitted where none is configured. -/
def defaultLimit : Nat := 64 * 1024 * 1024

/-- The greatest size admitted; a configured zero stands for the default. -/
def limit (maxSize : Nat) : Nat :=
  if 0 < maxSize then maxSize else defaultLimit

/-- Judges an announced size: it must be no negative number and within the limit. -/
def checkSize (maxSize : Nat) (size : Int) : Except IoFault Nat :=
  if size < 0 then .error (.negativeSize size)
  else if limit maxSize < size.toNat then .error (.oversize size (limit maxSize))
  else .ok size.toNat

/-! ### Frames at the front of octets -/

/-- What stands at the front of octets that arrived so far. -/
inductive Front where
  /-- More octets are needed to tell. -/
  | incomplete
  /-- No frame, whatever follows. -/
  | fault (fault : IoFault)
  /-- A frame, and what follows it. -/
  | frame (f : Frame) (rest : Octets)
deriving DecidableEq, Repr

/-- Looks for a frame at the front of octets. -/
def front (maxSize : Nat) (b : Octets) : Front :=
  if b.length < 4 then .incomplete
  else
    match checkSize maxSize (Octets.toInt (b.take 4)) with
    | .error fault => .fault fault
    | .ok n =>
      let behind := b.drop 4
      if behind.length < n then .incomplete
      else
        match ofPayload (behind.take n) with
        | .error fault => .fault fault
        | .ok f => .frame f (behind.drop n)

/-- A frame at the front takes at least the octets of its size. -/
theorem length_lt_of_front {maxSize : Nat} {b rest : Octets} {f : Frame}
    (h : front maxSize b = .frame f rest) : rest.length < b.length := by
  unfold front at h
  split at h
  · simp at h
  · rename_i hb
    split at h
    · simp at h
    · rename_i n _
      dsimp only at h
      split at h
      · simp at h
      · split at h
        · simp at h
        · simp only [Front.frame.injEq] at h
          obtain ⟨_, rfl⟩ := h
          simp only [List.length_drop]
          omega

end Frame

end Nsq
