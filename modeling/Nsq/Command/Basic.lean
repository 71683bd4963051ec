import Nsq.Octets
import Nsq.Text.Utf8
import Nsq.Fault
import Nsq.Duration.Basic

/-!
# Commands

A client sends commands: a name, parameters behind single blanks, a line feed, and for some names a
body behind its length in four octets. `Command.encode` writes them, `Command.writeTo` hands the
same octets piece by piece to a writer that may take only some of them.
-/

namespace Nsq

/-- An instruction to the daemon. -/
inductive Command where
  /-- Opens the negotiation with a body of settings. -/
  | identify (settings : Octets)
  /-- Presents a secret. -/
  | auth (secret : String)
  /-- Subscribes to a channel of a topic. -/
  | subscribe (topic channel : String)
  /-- Publishes a message. -/
  | publish (topic : String) (body : Octets)
  /-- Publishes a message that the daemon holds back for a while. -/
  | deferredPublish (topic : String) (delay : Duration) (body : Octets)
  /-- Publishes several messages at once. -/
  | multiPublish (topic : String) (parts : List Octets)
  /-- Grants the daemon a number of messages. -/
  | ready (count : Int)
  /-- Finishes a message. -/
  | finish (id : Octets)
  /-- Requeues a message. -/
  | requeue (id : Octets) (delay : Duration)
  /-- Asks for more time for a message. -/
  | touch (id : Octets)
  /-- Asks for no more messages. -/
  | startClose
  /-- Does nothing; the answer to a heartbeat. -/
  | nop
deriving DecidableEq

namespace Command

/-- The first length that does not fit a length field. -/
def lengthBound : Nat := 2 ^ 32

/-- The name that opens the line. -/
def name : Command → String
  | identify _ => "IDENTIFY"
  | auth _ => "AUTH"
  | subscribe _ _ => "SUB"
  | publish _ _ => "PUB"
  | deferredPublish _ _ _ => "DPUB"
  | multiPublish _ _ => "MPUB"
  | ready _ => "RDY"
  | finish _ => "FIN"
  | requeue _ _ => "REQ"
  | touch _ => "TOUCH"
  | startClose => "CLS"
  | nop => "NOP"

/-- A number as a parameter. -/
def decimal (i : Int) : Octets := Octets.ofString (toString i)

/-- A duration as a parameter, in whole milliseconds. -/
def millis (d : Duration) : Octets := decimal d.millis

/-- The parameters of the line. -/
def params : Command → List Octets
  | subscribe topic channel => [Octets.ofString topic, Octets.ofString channel]
  | publish topic _ | multiPublish topic _ => [Octets.ofString topic]
  | deferredPublish topic delay _ => [Octets.ofString topic, millis delay]
  | ready count => [decimal count]
  | finish id | touch id => [id]
  | requeue id delay => [id, millis delay]
  | identify _ | auth _ | startClose | nop => []

/-- The body of a batch: the number of parts, then each behind its length. -/
def batch (parts : List Octets) : Octets :=
  Octets.word 4 parts.length ++ parts.flatMap fun p => Octets.word 4 p.length ++ p

/-- What follows the line, where the command has it. -/
def body : Command → Option Octets
  | identify settings => some settings
  | auth secret => some (Octets.ofString secret)
  | publish _ body | deferredPublish _ _ body => some body
  | multiPublish _ parts => some (batch parts)
  | subscribe _ _ | ready _ | finish _ | requeue _ _ | touch _ | startClose | nop => none

/-- The command that publishes several messages at once; their number and each of their lengths
must fit a length field. -/
def multiPublish? (topic : String) (parts : List Octets) : Except IoFault Command :=
  if parts.length < lengthBound ∧ ∀ p ∈ parts, p.length < lengthBound then
    .ok (multiPublish topic parts)
  else .error .oversizeBatch

/-! ### On the wire -/

/-- The pieces of the line of a command, in order. -/
def linePieces (c : Command) : List Octets :=
  Octets.ofString c.name :: (c.params.flatMap fun p => [[0x20], p]) ++ [[0x0A]]

/-- The pieces of the body of a command. -/
def bodyPieces (c : Command) : List Octets :=
  match c.body with
  | none => []
  | some body => [Octets.word 4 body.length, body]

/-- Whether the body of a command fits its length field. -/
def fits (c : Command) : Bool :=
  match c.body with
  | none => true
  | some body => body.length < lengthBound

/-- The octets of a command. -/
def octets (c : Command) : Octets :=
  (c.linePieces ++ c.bodyPieces).flatten

/-- The octets of a command, if its body fits its length field. -/
def encode (c : Command) : Except IoFault Octets :=
  if c.fits then .ok c.octets else .error .oversizeBody

/-- The line of a command as text, without the line feed. -/
def text (c : Command) : String :=
  c.params.foldl (fun s p => s ++ " " ++ p.lossyText) c.name

end Command

end Nsq
