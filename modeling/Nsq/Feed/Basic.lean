import Nsq.Failure

/-!
# Feeding a topic

A feed publishes lines of text to a topic, one message each; empty lines are left out. The text must
be well formed, and a line of which nothing but its end came counts as empty.
-/

namespace Nsq.Feed

/-- What is fed. -/
structure Options where
  /-- The topic. -/
  topic : String
  /-- The address of the daemon. -/
  daemon : String := "127.0.0.1:4150"
deriving DecidableEq, Repr

/-- How a feed is called. -/
def usage : String := "usage: to_nsq <topic> [nsqd host:port]"

/-- Reads arguments: a topic, and perhaps the address of a daemon. -/
def Options.ofArgs : List String → Option Options
  | [] => none
  | [topic] => some { topic := topic }
  | topic :: daemon :: _ => some { topic := topic, daemon := daemon }

/-- A line without its end, which is a line feed, perhaps behind a carriage return. -/
def chomp (b : Octets) : Octets :=
  if b.getLast? = some 0x0A then
    if b.dropLast.getLast? = some 0x0D then b.dropLast.dropLast else b.dropLast
  else b

/-- The message that a line makes, if it is not empty. -/
def message (line : Octets) : Except IoFault (Option Octets) :=
  match line.text? with
  | none => .error .invalidText
  | some _ =>
    let body := chomp line
    .ok (if body.isEmpty then none else some body)

end Nsq.Feed
