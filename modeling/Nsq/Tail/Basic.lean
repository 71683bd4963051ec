import Nsq.Consumer.Subscription
import Nsq.Message.Basic
import Nsq.Text.Base64

/-!
# Tailing a topic

A tail shows the messages of a topic as they come, one line each, in one of three styles. It reads
from one daemon, or from those that a lookup service names.
-/

namespace Nsq.Tail

/-- How messages are shown. -/
inductive Style where
  /-- As text, or in hexadecimal where they are none. -/
  | text
  /-- As text of one line; others are refused. -/
  | lines
  /-- In digits of six bits. -/
  | base64
deriving DecidableEq, Repr

/-- What is tailed, and how it is shown. -/
structure Options where
  /-- The address of a daemon or the URL of a lookup service. -/
  source : String
  /-- The topic. -/
  topic : String
  /-- The channel; the usual one leaves no trace when its last reader is gone. -/
  channel : String := "nsq_tail#ephemeral"
  /-- How messages are shown. -/
  style : Style := .text
deriving DecidableEq, Repr

/-- How a tail is called. -/
def usage : String :=
  "usage: nsq_tail <nsqd host:port | http://lookupd:port> <topic> [channel] " ++
    "[--text|--jsonl|--base64]"

namespace Options

/-- Takes one argument behind the first two; what looks like a switch must be one. -/
def take (o : Options) (arg : String) : Option Options :=
  if arg = "--text" then some { o with style := .text }
  else if arg = "--jsonl" then some { o with style := .lines }
  else if arg = "--base64" then some { o with style := .base64 }
  else if "--".toList.isPrefixOf arg.toList then none
  else some { o with channel := arg }

/-- Reads arguments: a source, a topic, and then a channel and switches in any order, of which the
last ones hold. -/
def ofArgs : List String → Option Options
  | source :: topic :: more => more.foldlM take ⟨source, topic, "nsq_tail#ephemeral", .text⟩
  | _ => none

/-- Whether the source is a lookup service. -/
def isLookup (o : Options) : Bool :=
  "http://".toList.isPrefixOf o.source.toList || "https://".toList.isPrefixOf o.source.toList

/-- How many messages may be in flight while a topic is tailed. -/
def maxInFlight : Int := 200

/-- What a tail subscribes to, under the configuration of its host. -/
def subscription (o : Options) (initial : Config) : Except Failure Subscription :=
  match initial.set CountOption.maxInFlight.name (.int maxInFlight) with
  | .error fault => .error (.config fault)
  | .ok config => Subscription.create o.topic o.channel config

end Options

/-- Why a message is not shown. -/
inductive Unshown where
  /-- It is no text. -/
  | notText
  /-- It has more than one line. -/
  | severalLines
deriving DecidableEq, Repr

/-- The wording of the reason. -/
def Unshown.message : Unshown → String
  | notText => "payload not valid UTF-8"
  | severalLines => "payload contains newline; not valid for --jsonl (use --base64)"

/-- How many octets of a message that is no text are shown. -/
def previewLength : Nat := 32

/-- The line that shows a message, without its line feed. -/
def line (s : Style) (m : Message) : Except Unshown String :=
  match s with
  | .text =>
    match m.body.text? with
    | some t => .ok t
    | none =>
      .ok ("msg " ++ m.idText ++ " (" ++ toString m.body.length ++ " bytes) hex: " ++
        m.body.preview previewLength)
  | .lines =>
    match m.body.text? with
    | none => .error .notText
    | some t => if t.toList.contains '\n' then .error .severalLines else .ok t
  | .base64 => .ok (Text.base64 m.body)

end Nsq.Tail
