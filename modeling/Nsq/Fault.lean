import Nsq.Text.Quoted

/-!
# Failures of reading and writing

One cause for each way in which octets cannot be read, understood or handed over. `IoFault.kind`
sorts the causes and `IoFault.message` words them; `IoFault.isSystem` singles out those whose
wording is the operating system's.
-/

namespace Nsq

/-- The sorts of failures. -/
inductive IoKind where
  | invalidData | unexpectedEof | invalidInput | writeZero | brokenPipe | notConnected
  | timedOut | networkUnreachable | connectionRefused | uncategorized
deriving DecidableEq, Repr

/-- The name of a sort. -/
def IoKind.name : IoKind → String
  | .invalidData => "InvalidData"
  | .unexpectedEof => "UnexpectedEof"
  | .invalidInput => "InvalidInput"
  | .writeZero => "WriteZero"
  | .brokenPipe => "BrokenPipe"
  | .notConnected => "NotConnected"
  | .timedOut => "TimedOut"
  | .networkUnreachable => "NetworkUnreachable"
  | .connectionRefused => "ConnectionRefused"
  | .uncategorized => "Uncategorized"

/-- Why octets could not be read, understood or written. -/
inductive IoFault where
  /-- The octets ended before the wanted number of them was read. -/
  | shortRead
  /-- A frame announces a negative size. -/
  | negativeSize (size : Int)
  /-- A frame announces more octets than the limit allows. -/
  | oversize (size : Int) (limit : Nat)
  /-- A frame is too short for its type. -/
  | truncatedFrame
  /-- A frame has a type of no meaning. -/
  | unknownFrameType (code : Int)
  /-- A message frame is too short for its header. -/
  | truncatedMessage
  /-- The body of a command is too long for its length field. -/
  | oversizeBody
  /-- A batch has too many parts, or a part is too long for its length field. -/
  | oversizeBatch
  /-- The writer takes no more octets. -/
  | fullWriter
  /-- The writer refuses what it was given. -/
  | refusedWrite
  /-- There is no writer yet. -/
  | notConnected
  /-- Compressed octets make no sense. -/
  | corruptStream
  /-- Octets that should be text are none. -/
  | invalidText
  /-- An address has no port. -/
  | addressForm
  /-- The port of an address is no number of a port. -/
  | addressPort
  /-- The name of a host is not known. -/
  | unknownHost
  /-- The peer did not answer in time. -/
  | timedOut
  /-- No route leads to the peer. -/
  | unreachable
  /-- Nobody listens at the peer. -/
  | refused
deriving DecidableEq, Repr

namespace IoFault

/-- The sort of a failure. -/
def kind : IoFault → IoKind
  | shortRead => .unexpectedEof
  | negativeSize _ | oversize _ _ | truncatedFrame | unknownFrameType _ | truncatedMessage
  | invalidText => .invalidData
  | oversizeBody | oversizeBatch | addressForm | addressPort | corruptStream => .invalidInput
  | fullWriter => .writeZero
  | refusedWrite => .brokenPipe
  | notConnected => .notConnected
  | unknownHost => .uncategorized
  | timedOut => .timedOut
  | unreachable => .networkUnreachable
  | refused => .connectionRefused

/-- The number and the words that the operating system has for a failure that it reports. -/
def system? : IoFault → Option (Nat × String)
  | unreachable => some (101, "Network is unreachable")
  | refused => some (111, "Connection refused")
  | _ => none

/-- Whether a failure is reported by the operating system, which words it. -/
def isSystem (f : IoFault) : Bool := f.system?.isSome

/-- The wording of a failure that the operating system reports. -/
def systemMessage (number : Nat) (words : String) : String :=
  words ++ " (os error " ++ toString number ++ ")"

/-- The wording of a failure. -/
def message : IoFault → String
  | shortRead => "failed to fill whole buffer"
  | negativeSize size => "response msg size is negative: " ++ toString size
  | oversize size limit =>
    "response msg size " ++ toString size ++ " exceeds maximum (" ++ toString limit ++ ")"
  | truncatedFrame => "length of response is too small"
  | unknownFrameType code => "unknown frame type " ++ toString code
  | truncatedMessage => "not enough data to decode valid message"
  | oversizeBody => "command body too large"
  | oversizeBatch => "MPUB body too large"
  | fullWriter => "failed to write whole buffer"
  | refusedWrite => "sink refused"
  | notConnected => "not connected"
  | corruptStream => "corrupt deflate stream"
  | invalidText => "stream did not contain valid UTF-8"
  | addressForm => "invalid socket address"
  | addressPort => "invalid port value"
  | unknownHost => "failed to lookup address information: Name or service not known"
  | timedOut => "connection timed out"
  | unreachable => systemMessage 101 "Network is unreachable"
  | refused => systemMessage 111 "Connection refused"

end IoFault

end Nsq
