import Nsq.Connection.Event
import Nsq.Command.Basic
import Nsq.Config.Basic
import Nsq.Frame.Basic
import Nsq.Session.Terms
import Nsq.Number.Word

/-!
# Connections

A connection past its handshake. It holds the credit that was granted to the daemon, the number of
messages without an answer, and how far it has come on its way to being closed:

* it is `closing` once somebody asked for the end;
* it is `draining` once the end has begun: nothing is written any more, and answers that still come
  in are only counted;
* it is no longer `reading` once the daemon's octets have ended or are not wanted any more;
* it is `closed`, and says so once, when it is draining, has stopped reading and has no message left
  without an answer.

`Connection.settle` draws the conclusions from where a connection stands; every step of a run ends
with it.
-/

namespace Nsq

namespace Connection

/-- What does not change over the life of a connection. -/
structure Policy where
  /-- The greatest frame accepted; zero for the default. -/
  maxFrame : Nat
  /-- How often a message may be attempted; zero for no bound. -/
  maxAttempts : Nat
  /-- The delay of a message requeued at its first attempt. -/
  defaultDelay : Duration
  /-- The longest delay that is chosen for a message. -/
  maxDelay : Duration
  /-- Whether the owner asks for the end at the first fault. -/
  closesOnFault : Bool
deriving DecidableEq

/-- The policy of a configuration. -/
def Policy.ofConfig (c : Config) (closesOnFault : Bool) : Policy where
  maxFrame := c.maxFrame
  maxAttempts := (c.counts .maxAttempts).toNat
  defaultDelay := c.durations .defaultRequeueDelay
  maxDelay := c.durations .maxRequeueDelay
  closesOnFault := closesOnFault

end Connection

/-- A connection past its handshake. -/
structure Connection where
  /-- The address of the daemon. -/
  address : String
  /-- What does not change. -/
  policy : Connection.Policy
  /-- The greatest credit that the daemon takes. -/
  maxRdy : Int := defaultMaxRdy
  /-- The credit left; messages beyond the credit make it negative. -/
  rdy : Int := 0
  /-- The credit as it was granted last. -/
  lastRdy : Int := 0
  /-- The messages without an answer. -/
  inFlight : Int := 0
  /-- Whether somebody asked for the end. -/
  closing : Bool := false
  /-- Whether the octets of the daemon are still read. -/
  reading : Bool := true
  /-- Whether the end has begun. -/
  draining : Bool := false
  /-- Whether the end was reported. -/
  closed : Bool := false
  /-- Whether reading waits for the owner to take a message. -/
  stalled : Bool := false
  /-- Whether the daemon has ended its octets. -/
  ended : Bool := false
  /-- Octets of the daemon that were not read yet. -/
  unread : Octets := []
  /-- Whether writes fail. -/
  refusing : Bool := false
  /-- The commands written, in order. -/
  sent : List Command := []
deriving DecidableEq

namespace Connection

/-! ### The way to the end -/

/-- Somebody asks for the end. -/
def close (c : Connection) : Connection := { c with closing := true }

/-- The end begins. -/
def beginClose (c : Connection) : Connection := { c with closing := true, draining := true }

/-- Reading stops; with no message left without an answer the end begins at once. -/
def endReading (c : Connection) : Connection :=
  let c := { c with reading := false, stalled := false, unread := [] }
  if c.inFlight = 0 then c.beginClose else c

/-- Tells the owner of a fault, which may make it ask for the end. -/
def report (f : IoFault) (c : Connection) : List Event × Connection :=
  ([.fault f], if c.policy.closesOnFault then c.close else c)

/-- Whether the end is due: it was asked for, and no answer is missing or wanted any more. -/
def isDue (c : Connection) : Bool := c.closing && (c.inFlight == 0 || c.draining)

/-- Whether everything is done that must be done before the end is reported. -/
def isDrained (c : Connection) : Bool := c.draining && c.inFlight ≤ 0 && !c.reading

/-- Stops reading when the end is due, and reports the end when all is done. -/
def settle (c : Connection) : List Event × Connection :=
  let c := if c.reading && !c.stalled && c.isDue then c.endReading else c
  if c.isDrained && !c.closed then ([.closed c.inFlight], { c with closed := true }) else ([], c)

/-! ### Writing -/

/-- Writes a command; a fault is reported to the owner as well. -/
def write (cmd : Command) (c : Connection) : Except IoFault Unit × List Event × Connection :=
  let failed (f : IoFault) : Except IoFault Unit × List Event × Connection :=
    (.error f, c.report f)
  if !cmd.fits then failed .oversizeBody
  else if c.refusing then failed .refusedWrite
  else (.ok (), [], { c with sent := c.sent ++ [cmd] })

/-! ### Credit -/

/-- Books a granted credit; gives the credit that it replaces. -/
def setRdy (n : Int) (c : Connection) : Int × Connection :=
  (c.rdy, { c with rdy := n, lastRdy := n })

/-- Books an arriving message against the credit, a word that wraps around. -/
def arrive (c : Connection) : Connection :=
  { c with rdy := word64 (c.rdy - 1), inFlight := c.inFlight + 1 }

/-- A description of a connection. -/
def describe (c : Connection) : String :=
  "Conn \x7b addr: " ++ Text.quoted c.address ++ ", rdy: " ++ toString c.rdy ++ ", max_rdy: " ++
    toString c.maxRdy ++ ", in_flight: " ++ toString c.inFlight ++ ", closing: " ++
    toString c.closing ++ " \x7d"

end Connection

end Nsq
