import Nsq.Connection.Run
import Nsq.Consumer.Handling
import Nsq.Consumer.Subscription

/-!
# Consumers

A consumer reads one channel over any number of connections. It lends each of them a share of a
budget of messages in flight, slows down when handlers fail, finds daemons through lookup services,
and hands messages to its handlers.

Every connection it ever opened is a `Link`; the table `Consumer.live` says which link serves an
address now. The order of that table is the order in which the links are walked, and nothing that
matters may depend on it. `Consumer.totalRdy` is the credit granted over all links whose end was not
reported yet, as a word of 64 bits. Sums of credit are evaluated with `Consumer.check`, which notes
the first that is no word; a program that does not check its sums never looks at the note.
-/

namespace Nsq

/-- A connection of a consumer. -/
structure Link where
  /-- The connection. -/
  conn : Connection
  /-- Whether no message has come for longer than an idle connection is left its credit. -/
  idle : Bool := false
  /-- How many messages have come over it. -/
  heard : Nat := 0
deriving DecidableEq

/-- A message that a handler got. -/
structure Handed extends Delivery where
  /-- The link it came over. -/
  link : Nat
deriving DecidableEq, Repr

/-- A message on its way to a handler. -/
structure Offer where
  /-- The link it came over. -/
  link : Nat
  /-- The message. -/
  message : Message
deriving DecidableEq, Repr

/-- A consumer. -/
structure Consumer where
  /-- What it reads, and how. -/
  subscription : Subscription
  /-- The messages received. -/
  received : Nat := 0
  /-- The messages finished. -/
  finished : Nat := 0
  /-- The messages requeued. -/
  requeued : Nat := 0
  /-- The credit granted over all links. -/
  totalRdy : Int := 0
  /-- The first sum of credit that was no word, at which a program ends that checks its sums. -/
  overflow : Option Overflow := none
  /-- The budget of messages in flight. -/
  maxInFlight : Int
  /-- The share of an active link, as the idle policy has set it; zero where it has not. -/
  share : Int := 0
  /-- Whether the credit shall be spread anew. -/
  respread : Bool := false
  /-- The grants to be tried again, by address. -/
  retries : List (String × Int) := []
  /-- How often in a row the pace was found too high. -/
  level : Nat := 0
  /-- The nanoseconds of the pause under way; zero for none. -/
  pause : Nat := 0
  /-- Whether something will wake the consumer at the end of the pause. -/
  armed : Bool := false
  /-- Every connection that was opened, the oldest first. -/
  links : List Link := []
  /-- The link that serves an address. -/
  live : List (String × Nat) := []
  /-- The addresses being connected to. -/
  pending : List String := []
  /-- The addresses of daemons to come back to. -/
  daemons : List String := []
  /-- The addresses of lookup services. -/
  lookups : List String := []
  /-- How many endpoints were taken from that list, round after round. -/
  turn : Nat := 0
  /-- Whether the lookup services shall be asked before their time. -/
  recheck : Bool := false
  /-- The addresses with an attempt to reconnect under way. -/
  reconnects : List String := []
  /-- The handlers that were counted in and not out. -/
  handlers : Nat := 0
  /-- The handlers that panicked while giving a message up, which nobody counts out. -/
  lost : Nat := 0
  /-- The messages that handlers got, the oldest first. -/
  handed : List Handed := []
  /-- The messages that handlers are busy with, as numbers in that list. -/
  busy : List Nat := []
  /-- The messages that wait for a handler, the oldest first. -/
  offers : List Offer := []
  /-- How often a handler was called with a message. -/
  handled : Nat := 0
  /-- How often a message was given up. -/
  failed : Nat := 0
  /-- What a handler does with a message that it gives up. -/
  givingUp : Handling := {}
  /-- Whether handlers still get messages. -/
  serving : Bool := true
  /-- Which of the daemons that lookup services name are wanted. -/
  filter : List String → List String := id
  /-- Whether a connection was ever asked for. -/
  connected : Bool := false
  /-- Whether a stop was asked for. -/
  stopping : Bool := false
  /-- Whether the consumer has stopped. -/
  exited : Bool := false

namespace Consumer

/-- A consumer of a subscription, without handlers and connections. -/
def ofSubscription (s : Subscription) : Consumer where
  subscription := s
  maxInFlight := s.config.counts .maxInFlight

/-- Its configuration. -/
def config (c : Consumer) : Config := c.subscription.config

/-! ### Links -/

/-- The connection of a link. -/
def conn? (i : Nat) (c : Consumer) : Option Connection := c.links[i]?.map Link.conn

/-- Changes a link. -/
def modifyLink (i : Nat) (f : Link → Link) (c : Consumer) : Consumer :=
  { c with links := c.links.modify i f }

/-- Replaces the connection of a link. -/
def putConn (i : Nat) (conn : Connection) (c : Consumer) : Consumer :=
  c.modifyLink i fun l => { l with conn := conn }

/-- The links that are walked. -/
def walk (c : Consumer) : List Nat := c.live.map Prod.snd

/-- The link that serves an address. -/
def serving? (addr : String) (c : Consumer) : Option Nat :=
  (c.live.find? fun e => e.1 == addr).map Prod.snd

/-- Enters a link into the table; it replaces the one that served its address. -/
def enter (addr : String) (i : Nat) (c : Consumer) : Consumer :=
  { c with live := c.live.filter (fun e => e.1 != addr) ++ [(addr, i)] }

/-- Opens a link to an address, without entering it into the table. -/
def openLink (link : Link) (c : Consumer) : Nat × Consumer :=
  (c.links.length, { c with links := c.links ++ [link] })

/-- The policy of its connections: a fault is reason enough to end one. -/
def policy (c : Consumer) : Connection.Policy := Connection.Policy.ofConfig c.config true

/-! ### Sums -/

/-- Evaluates a sum: if it is no word, and none before was not, that is noted. -/
def check (op : Overflow) (n : Int) (c : Consumer) : Consumer :=
  { c with overflow := c.overflow.or (if isWord64 n then none else some op) }

/-! ### Pace and shares -/

/-- Whether the pace is reduced. -/
def inBackoff (c : Consumer) : Bool := 0 < c.level

/-- Whether a pause is under way. -/
def inPause (c : Consumer) : Bool := 0 < c.pause

/-- The credit meant for each link: the share that the idle policy has set, or an even part of the
budget, at least one message and at most the budget. -/
def perLink (c : Consumer) : Int :=
  if 0 < c.share then min c.share c.maxInFlight
  else if c.live.isEmpty then c.maxInFlight
  else min (max (c.maxInFlight.tdiv c.live.length) 1) c.maxInFlight

/-- The part of a grant that must be in flight for a link to count as starved: the double next to
0.85. -/
def starvation : Double := Double.ofRatio false 85 100

/-- The messages that must be in flight for a link to count as starved. -/
def starvedFrom (lastRdy : Int) : Int :=
  ((Double.ofInt lastRdy * starvation).truncate?).getD 0

/-- Whether a connection has nearly used up its grant. -/
def isStarvedConn (conn : Connection) : Bool :=
  starvedFrom conn.lastRdy ≤ conn.inFlight && 0 < conn.inFlight && !conn.closing

/-- Whether some link has nearly used up its grant, so that the handlers are what is slow. -/
def isStarved (c : Consumer) : Bool :=
  c.walk.any fun i => (c.conn? i).any isStarvedConn

end Consumer

end Nsq
