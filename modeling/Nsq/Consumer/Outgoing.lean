import Nsq.Consumer.Agenda

/-!
# What leaves a consumer

A consumer that lives on the network hands the commands that it wrote over to the network, and may
forget them then, as it may forget messages that no handler is busy with and nobody else holds. It
also has to be told what becomes of the addresses and services that an act is about to call on:
`dials` and `queries` name them in advance.
-/

namespace Nsq.Consumer

/-- The commands written on each link and not handed over yet, and the consumer without them. -/
def handOut (c : Consumer) : List (List Command) × Consumer :=
  (c.links.map fun l => l.conn.sent,
    { c with links := c.links.map fun l => { l with conn := { l.conn with sent := [] } } })

/-- Forgets the messages that handlers got, if no handler is busy with one. -/
def forget (c : Consumer) : Consumer :=
  if c.busy.isEmpty then { c with handed := [] } else c

/-- The addresses among some that would be dialed, each once. -/
def dials (addrs : List String) (c : Consumer) : List String :=
  addrs.eraseDups.filter fun addr => (c.takeDown addr).1.isOk

/-- The queries that would be made, one after another until one of them has an answer. -/
def queries (c : Consumer) : List Lookup.Request :=
  (List.range lookupAttempts).filterMap fun k =>
    (c.lookups[(c.turn + k) % c.lookups.length]?).bind fun addr =>
      (Lookup.request addr c.subscription.topic).toOption

/-- The addresses that an answer names, as far as they are wanted. -/
def found (a : Lookup.Answer) (c : Consumer) : List String :=
  c.filter (a.producers.map Lookup.Peer.address)

/-- What is known of the outside: what became of dials and of queries. What was not called on does
not answer. -/
structure Sightings where
  /-- What became of dials. -/
  dialed : List (String × Except Failure Dialed) := []
  /-- What became of queries. -/
  replies : List (Lookup.Request × Except Lookup.TransportFault Lookup.Reply) := []

/-- The outside as far as it is known. -/
def Sightings.surroundings (s : Sightings) (chance : Nat → Nat) : Surroundings where
  dial addr := (s.dialed.lookup addr).getD (.error (.io .unreachable))
  ask r := (s.replies.lookup r).getD (.error .unreachable)
  chance := chance

end Nsq.Consumer
