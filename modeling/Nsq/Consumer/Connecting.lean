import Nsq.Consumer.Stopping
import Nsq.Lookup.Query

/-!
# Finding and leaving daemons

A connection comes about in phases, each of which may fail: the address is taken down, the daemon
is dialed and a session opened, the channel is subscribed, and the link enters the table. Daemons
are named by the owner or by lookup services, which are asked in turn.

What the outside does is given by `Surroundings`: what becomes of a dial, and of a query.
-/

namespace Nsq

/-- A daemon that was dialed, with a session opened. -/
structure Dialed where
  /-- The terms of the session; none from a daemon of old. -/
  terms : Option Terms
  /-- Whether writes fail from the start. -/
  refusing : Bool := false
deriving DecidableEq, Repr

/-- What the outside does. -/
structure Surroundings where
  /-- What becomes of dialing an address. -/
  dial : String → Except Failure Dialed
  /-- What becomes of a query. -/
  ask : Lookup.Request → Except Lookup.TransportFault Lookup.Reply
  /-- What is left to chance. -/
  chance : Nat → Nat

namespace Consumer

/-! ### Daemons -/

/-- Counts handlers in; they must come before the first connection. -/
def addHandlers (n : Nat) (c : Consumer) : Except Failure Unit × Consumer :=
  if c.connected then (.error .handlersAfterConnect, c)
  else (.ok (), { c with handlers := c.handlers + n })

/-- Takes an address down as one to connect to. -/
def takeDown (addr : String) (c : Consumer) : Except Failure Unit × Consumer :=
  if c.stopping then (.error .stopped, c)
  else if c.handlers = 0 then (.error .noHandlers, c)
  else
    let c := { c with connected := true }
    if c.pending.contains addr || (c.serving? addr).isSome then (.error .alreadyConnected, c)
    else
      let daemons := if c.daemons.contains addr then c.daemons else c.daemons ++ [addr]
      (.ok (), { c with daemons := daemons, pending := c.pending ++ [addr] })

/-- The address is no longer being connected to. -/
def unpend (addr : String) (c : Consumer) : Consumer :=
  { c with pending := c.pending.filter (· != addr) }

/-- The link to a daemon that was dialed. -/
def linkTo (addr : String) (d : Dialed) (c : Consumer) : Link where
  conn :=
    { address := addr
      policy := c.policy
      maxRdy := Session.maxRdyOf d.terms
      refusing := d.refusing }

/-- Subscribes over a link. -/
def subscribe (i : Nat) (c : Consumer) : Except Failure Unit × Consumer :=
  match c.conn? i with
  | none => (.error .notConnected, c)
  | some conn =>
    let (written, _, conn) := conn.write (.subscribe c.subscription.topic c.subscription.channel)
    match written with
    | .ok () => (.ok (), c.putConn i conn)
    | .error fault => (.error (.io fault), c.putConn i conn.close)

/-- A subscribed link enters the table. It lowers the share of the others. -/
def goLive (addr : String) (i : Nat) (c : Consumer) : Consumer :=
  let c := { (c.unpend addr).enter addr i with share := 0 }
  c.refillAll c.walk

/-- Connects to a daemon. -/
def connect (env : Surroundings) (addr : String) (c : Consumer) : Except Failure Unit × Consumer :=
  match c.takeDown addr with
  | (.error failure, c) => (.error failure, c)
  | (.ok (), c) =>
    match env.dial addr with
    | .error failure => (.error failure, c.unpend addr)
    | .ok dialed =>
      let (i, c) := c.openLink (c.linkTo addr dialed)
      match c.subscribe i with
      | (.error failure, c) => (.error failure, c.unpend addr)
      | (.ok (), c) => (.ok (), c.goLive addr i)

/-- Connects to daemons, up to the first failure. -/
def connectAll (env : Surroundings) (addrs : List String) (c : Consumer) :
    Except Failure Unit × Consumer :=
  match addrs with
  | [] => (.ok (), c)
  | addr :: addrs =>
    match c.connect env addr with
    | (.ok (), c) => c.connectAll env addrs
    | (.error failure, c) => (.error failure, c)

/-- Leaves a daemon, and does not come back to it. Between two acts no connection is being set up
that would have to be called off (`Underway.disconnect`). -/
def disconnect (addr : String) (c : Consumer) : Except Failure Unit × Consumer :=
  if c.daemons.contains addr then
    let c := { c with daemons := c.daemons.erase addr }
    match c.serving? addr with
    | some i => (.ok (), c.modifyLink i fun l => { l with conn := l.conn.close })
    | none => (.ok (), c)
  else (.error .notConnected, c)

/-- Comes back to an address after a while, as long as it is wanted. -/
def reconnect (env : Surroundings) (addr : String) (c : Consumer) : Consumer :=
  if c.reconnects.contains addr then
    let gone := { c with reconnects := c.reconnects.erase addr }
    if c.stopping || !c.daemons.contains addr then gone
    else
      match gone.connect env addr with
      | (.ok (), c) => c
      | (.error .alreadyConnected, c) => c
      | (.error _, c) => { c with reconnects := c.reconnects ++ [addr] }
  else c

/-! ### Lookup services -/

/-- Connects to the daemons that a lookup service names, as far as they are wanted. A failure to
connect to one does not keep it from the others. -/
def connectFound (env : Surroundings) (a : Lookup.Answer) (c : Consumer) : Consumer :=
  (c.filter (a.producers.map Lookup.Peer.address)).foldl (fun c addr => (c.connect env addr).2) c

/-- The lookup service whose turn it is. -/
def nextLookup (c : Consumer) : Option String × Consumer :=
  match c.lookups[c.turn % c.lookups.length]? with
  | none => (none, c)
  | some addr => (some addr, { c with turn := c.turn + 1 })

/-- Tells whether the lookup services shall be asked before their time, which is known then. -/
def takeRecheck (c : Consumer) : Bool × Consumer := (c.recheck, { c with recheck := false })

/-- How often one after another is asked before all of them are left alone for a while. -/
def lookupAttempts : Nat := 3

/-- Asks lookup services for the daemons of the topic, the next one where one fails. -/
def askLookups (env : Surroundings) : (attempts : Nat) → Consumer → Consumer
  | 0, c => c
  | n + 1, c =>
    match c.nextLookup with
    | (none, c) => c
    | (some addr, c) =>
      match Lookup.query addr c.subscription.topic env.ask with
      | .ok a => c.connectFound env a
      | .error _ => askLookups env n c

/-- Asks lookup services for the daemons of the topic. -/
def lookUp (env : Surroundings) (c : Consumer) : Consumer :=
  askLookups env lookupAttempts c

/-- Adds a lookup service. The first one is asked at once. -/
def addLookup (env : Surroundings) (addr : String) (c : Consumer) :
    Except Failure Unit × Consumer :=
  if c.stopping then (.error .stopped, c)
  else if c.handlers = 0 then (.error .noHandlers, c)
  else
    match Lookup.checkAddress addr with
    | .error reason => (.error (.invalidLookupAddress addr reason), c)
    | .ok () =>
      let c := { c with connected := true }
      if c.lookups.contains addr then (.ok (), c)
      else
        let c := { c with lookups := c.lookups ++ [addr] }
        (.ok (), if c.lookups.length = 1 then c.lookUp env else c)

/-- Adds lookup services, up to the first failure. -/
def addLookups (env : Surroundings) (addrs : List String) (c : Consumer) :
    Except Failure Unit × Consumer :=
  match addrs with
  | [] => (.ok (), c)
  | addr :: addrs =>
    match c.addLookup env addr with
    | (.ok (), c) => c.addLookups env addrs
    | (.error failure, c) => (.error failure, c)

/-- Leaves a lookup service; the last one must stay. -/
def dropLookup (addr : String) (c : Consumer) : Except Failure Unit × Consumer :=
  if c.lookups.contains addr then
    if c.lookups.length = 1 then (.error (.lastLookup addr), c)
    else (.ok (), { c with lookups := c.lookups.erase addr })
  else (.error .notConnected, c)

end Consumer

end Nsq
