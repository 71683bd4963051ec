import Nsq.Message.Basic

/-!
# Answering a message

Whoever holds a message may answer it once for good, by finishing or requeueing it, and may ask for
more time until then. `Answered` is the state that all copies of a message share, and
`Answered.call` tells which calls of its holders pass: of the final answers only the first, and
requests for time only before it. `Copies` keeps several copies of one message.
-/

namespace Nsq

/-- What a holder of a message may tell the daemon for good. -/
inductive Answer where
  /-- The message is done. -/
  | finish
  /-- The message shall be handed out again after a delay (the default one if none is given);
  `backoff` tells whether this counts as a failure. -/
  | requeue (delay : Option Duration) (backoff : Bool)
deriving DecidableEq

/-- What a holder of a message may call for. -/
inductive Call where
  /-- A final answer. -/
  | answer (a : Answer)
  /-- More time. -/
  | touch
  /-- That no answer be given on its behalf when its handler returns. -/
  | disableAuto
deriving DecidableEq

/-- What of a call is passed on to the connection of the message. -/
inductive Request where
  /-- A final answer. -/
  | answer (a : Answer)
  /-- More time. -/
  | touch
deriving DecidableEq

/-- The state that all copies of a message share. -/
structure Answered where
  /-- Whether a final answer was given. -/
  responded : Bool := false
  /-- Whether the holder answers by itself, whatever its handler returns. -/
  manual : Bool := false
deriving DecidableEq, Repr

namespace Answered

/-- What passes of a call, and the state after it. -/
def call (s : Answered) : Call → Option Request × Answered
  | .answer a =>
    if s.responded then (none, s) else (some (.answer a), { s with responded := true })
  | .touch => (if s.responded then none else some .touch, s)
  | .disableAuto => (none, { s with manual := true })

/-- What passes of calls made one after another, and the state after them. -/
def calls (s : Answered) : List Call → List Request × Answered
  | [] => ([], s)
  | c :: cs =>
    let (passed, s) := s.call c
    let (more, s) := s.calls cs
    (passed.toList ++ more, s)

end Answered

/-! ### Copies of a message -/

/-- One copy of a message. -/
structure Copy where
  /-- What the copy carries; copies may be changed apart from each other. -/
  message : Message
  /-- Whether the calls on this copy go to a connection. -/
  attached : Bool
deriving DecidableEq, Repr

/-- The copies of one message, the first one first. -/
structure Copies where
  /-- The state that they share. -/
  state : Answered := {}
  /-- The copies. -/
  items : List Copy
deriving DecidableEq, Repr

namespace Copies

/-- A message without further copies. -/
def ofMessage (m : Message) (attached : Bool) : Copies :=
  { items := [⟨m, attached⟩] }

/-- Copies the copy at `i`. -/
def copy (i : Nat) (c : Copies) : Copies :=
  { c with items := c.items ++ c.items[i]?.toList }

/-- Changes the copy at `i` alone. -/
def modify (i : Nat) (f : Copy → Copy) (c : Copies) : Copies :=
  { c with items := c.items.modify i f }

/-- Makes a call on the copy at `i`. What passes of it is lost if that copy is not attached. -/
def call (i : Nat) (k : Call) (c : Copies) : Option Request × Copies :=
  let (passed, state) := c.state.call k
  let attached := c.items[i]?.any fun x => x.attached
  (if attached then passed else none, { c with state := state })

end Copies

end Nsq
