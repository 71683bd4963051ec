import Nsq.Message.Answered
import Nsq.Fault

/-!
# Events of a connection

What a connection tells its owner, in the order in which it happens.
-/

namespace Nsq

/-- What the answer to a message says about the pace at which messages can be handled. -/
inductive Signal where
  /-- The message failed: slower. -/
  | backoff
  /-- The message goes back for a reason that says nothing against the pace. -/
  | steady
  /-- The message is done: back to full pace. -/
  | resume
deriving DecidableEq, Repr

/-- The signal that a final answer gives. -/
def Answer.signal : Answer → Signal
  | .finish => .resume
  | .requeue _ true => .backoff
  | .requeue _ false => .steady

namespace Connection

/-- Something that a connection tells its owner. -/
inductive Event where
  /-- The daemon answers a command. -/
  | response (data : Octets)
  /-- The daemon refuses a command. -/
  | error (data : Octets)
  /-- A message arrives; `rdy` and `inFlight` count it already. -/
  | message (m : Message) (rdy inFlight : Int)
  /-- The owner finished a message. -/
  | finished (id : Octets) (inFlight : Int)
  /-- The owner requeued a message. -/
  | requeued (id : Octets) (inFlight : Int)
  /-- What the answer to a message says about the pace. -/
  | pace (s : Signal)
  /-- Octets could not be read, understood or written. -/
  | fault (f : IoFault)
  /-- The daemon wants to see whether its client is alive. -/
  | heartbeat
  /-- The connection is closed; nothing follows. -/
  | closed (inFlight : Int)
deriving DecidableEq

end Connection

end Nsq
