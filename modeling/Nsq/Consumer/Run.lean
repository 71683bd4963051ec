import Nsq.Consumer.Spread
import Nsq.Consumer.Connecting

/-!
# Runs of a consumer

`Consumer.step` performs one act on a consumer, of its owner, of a daemon, of a handler or of a
timer, and everything that follows from the act. Its sums are cut down to words, and a timer acts
when it is told to. `Consumer.perform` is a step as a program makes it that may check its sums, and
whose timers are in time: the pauses that have no length are over before anything else is done.
-/

namespace Nsq.Consumer

/-- An act on a consumer. -/
inductive Act where
  /-- A connection is there, with everything settled, and enters the table. -/
  | attach (link : Link)
  /-- Writes on a link fail from now on, or no longer. -/
  | refuse (i : Nat) (on : Bool)
  /-- The daemon of a link sends octets. -/
  | feed (i : Nat) (b : Octets)
  /-- The daemon of a link ends its octets. -/
  | endOfInput (i : Nat)
  /-- No message has come over a link for a while. -/
  | idle (i : Nat)
  /-- Somebody asks for the end of a link. -/
  | closeLink (i : Nat)
  /-- The end of a link is reported. -/
  | retire (i : Nat)
  /-- A grant is asked for. -/
  | updateRdy (i : Nat) (count : Int)
  /-- A grant is booked and written as it is. -/
  | sendRdy (i : Nat) (count : Int)
  /-- A link gets its share if that is due. -/
  | refill (i : Nat)
  /-- The time has come to try a grant again. -/
  | retry (addr : String) (count : Int)
  /-- Something is said about the pace. -/
  | signal (s : Signal)
  /-- The pause ends. -/
  | resume
  /-- The time has come to look how the credit is spread. -/
  | redistribute
  /-- The credit shall be spread anew. -/
  | respread
  /-- The owner changes the budget. -/
  | changeMaxInFlight (n : Int)
  /-- A handler that is busy with a message makes its calls and ends. -/
  | handle (n : Nat) (h : Handling)
  /-- A holder of a message that a handler got makes a call. -/
  | call (n : Nat) (k : Call)
  /-- The owner adds handlers. -/
  | addHandlers (n : Nat)
  /-- The owner connects to daemons. -/
  | connect (addrs : List String)
  /-- The owner leaves a daemon. -/
  | disconnect (addr : String)
  /-- The time has come to come back to an address. -/
  | reconnect (addr : String)
  /-- The owner adds lookup services. -/
  | addLookups (addrs : List String)
  /-- The owner leaves a lookup service. -/
  | dropLookup (addr : String)
  /-- The time has come to ask lookup services. -/
  | lookUp
  /-- A lookup service has answered. -/
  | found (a : Lookup.Answer)
  /-- The owner asks for the stop. -/
  | stop

/-- What an act gives back. -/
inductive Reply where
  /-- Nothing. -/
  | nothing
  /-- Whether it succeeded. -/
  | result (r : Except Failure Unit)
  /-- Whether a message has its final answer; none if there is no such message. -/
  | responded (yes : Option Bool)

/-- Changes the connection of a link. -/
def modifyConn (i : Nat) (f : Connection → Connection) (c : Consumer) : Consumer :=
  c.modifyLink i fun l => { l with conn := f l.conn }

/-- An act without reply. -/
def silently (c : Consumer) : Reply × Consumer := (.nothing, c)

/-- An act that may fail. -/
def replying (r : Except Failure Unit × Consumer) : Reply × Consumer := (.result r.1, r.2)

/-- Performs an act, without what follows from it. -/
def act (env : Surroundings) (a : Act) (c : Consumer) : Reply × Consumer :=
  match a with
  | .attach link =>
    let (i, c) := c.openLink link
    silently (c.enter link.conn.address i)
  | .refuse i on => silently (c.modifyConn i fun conn => { conn with refusing := on })
  | .feed i b => silently (c.modifyConn i (Connection.push b))
  | .endOfInput i => silently (c.modifyConn i Connection.pushEnd)
  | .idle i => silently (c.modifyLink i fun l => { l with idle := true })
  | .closeLink i => silently (c.modifyConn i Connection.close)
  | .retire i => silently (c.retire i)
  | .updateRdy i count => replying (c.updateRdy i count)
  | .sendRdy i count => replying (c.sendRdy i count)
  | .refill i => silently (c.refill i)
  | .retry addr count => silently (c.retry addr count)
  | .signal s => silently (c.signal env.chance s)
  | .resume => silently (c.resume env.chance)
  | .redistribute => silently (c.redistribute env.chance)
  | .respread => silently { c with respread := true }
  | .changeMaxInFlight n => silently (c.changeMaxInFlight n)
  | .handle n h => silently (c.finishHandling env.chance n h)
  | .call n k =>
    let (yes, c) := c.call env.chance n k
    (.responded yes, c)
  | .addHandlers n => replying (c.addHandlers n)
  | .connect addrs => replying (c.connectAll env addrs)
  | .disconnect addr => replying (c.disconnect addr)
  | .reconnect addr => silently (c.reconnect env addr)
  | .addLookups addrs => replying (c.addLookups env addrs)
  | .dropLookup addr => replying (c.dropLookup addr)
  | .lookUp => silently (c.lookUp env)
  | .found a => silently (c.connectFound env a)
  | .stop => silently c.stop

/-- Performs an act and everything that follows from it. -/
def step (env : Surroundings) (a : Act) (c : Consumer) : Reply × Consumer :=
  let (reply, c) := c.act env a
  (reply, (c.work env.chance).settle)

/-- Ends a pause of no length. -/
def elapse (env : Surroundings) (c : Consumer) : Consumer :=
  if c.armed && !c.inPause then (c.step env .resume).2 else c

/-- Performs an act in time. A program that checks its sums ends at the first that is no word. -/
def perform (checks : Bool) (env : Surroundings) (a : Act) (c : Consumer) :
    Except Overflow (Reply × Consumer) :=
  let (reply, c) := (c.elapse env).step env a
  match c.overflow with
  | some o => if checks then .error o else .ok (reply, c)
  | none => .ok (reply, c)

/-- A program that checks its sums ends exactly if one was noted that is no word. -/
theorem perform_eq_error_iff {env : Surroundings} {a : Act} {c : Consumer} {o : Overflow} :
    c.perform true env a = .error o ↔ ((c.elapse env).step env a).2.overflow = some o := by
  unfold perform
  dsimp only
  cases ((c.elapse env).step env a).2.overflow <;> simp

/-- A program that goes on does so in the same way whether it checks its sums or not. -/
theorem step_eq_of_perform {checks : Bool} {env : Surroundings} {a : Act} {c : Consumer}
    {done : Reply × Consumer} (h : c.perform checks env a = .ok done) :
    (c.elapse env).step env a = done := by
  unfold perform at h
  dsimp only at h
  split at h
  · split at h
    · exact absurd h (by simp)
    · exact Except.ok.inj h
  · exact Except.ok.inj h

end Nsq.Consumer
