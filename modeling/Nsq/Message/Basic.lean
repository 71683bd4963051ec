import Nsq.Octets
import Nsq.Text.Utf8
import Nsq.Fault
import Nsq.Duration.Basic

/-!
# Messages

A message frame carries a timestamp, a count of attempts, an identifier of sixteen octets and the
body. `Message.decode` reads its data and `Message.encode` writes it.
-/

namespace Nsq

/-- The number of octets in the identifier of a message. -/
def messageIdLength : Nat := 16

/-- The number of octets in front of the body of a message. -/
def messageHeaderLength : Nat := 8 + 2 + messageIdLength

/-- A message as its holder sees it. -/
structure Message where
  /-- The identifier. -/
  id : Octets
  /-- What was published. -/
  body : Octets
  /-- Nanoseconds since the epoch, as stamped by the daemon. -/
  timestamp : Int := 0
  /-- How often the message was handed out, this time included. -/
  attempts : Nat := 0
  /-- How often it may be handed out before it is given up; zero for no bound. -/
  maxAttempts : Nat := 0
  /-- The address of the daemon it came from. -/
  address : String := ""
deriving DecidableEq, Repr

namespace Message

/-- The identifier as text. -/
def idText (m : Message) : String := m.id.lossyText

/-- Reads the data of a message frame. -/
def decode (b : Octets) : Except IoFault Message :=
  if b.length < messageHeaderLength then .error .truncatedMessage
  else
    .ok
      { timestamp := Octets.toInt (b.take 8)
        attempts := Octets.toNat ((b.drop 8).take 2)
        id := (b.drop 10).take messageIdLength
        body := b.drop messageHeaderLength }

/-- Writes the data of a message frame. -/
def encode (m : Message) : Octets :=
  Octets.word 8 (m.timestamp % 2 ^ 64).toNat ++ Octets.word 2 m.attempts ++ m.id ++ m.body

/-- A description of a message; `responded` says whether it has its final answer. -/
def describe (m : Message) (responded : Bool) : String :=
  "Message \x7b id: " ++ Text.quoted m.idText ++ ", body_len: " ++ toString m.body.length ++
    ", timestamp: " ++ toString m.timestamp ++ ", attempts: " ++ toString m.attempts ++
    ", nsqd_address: " ++ Text.quoted m.address ++ ", responded: " ++ toString responded ++ " \x7d"

end Message

end Nsq
