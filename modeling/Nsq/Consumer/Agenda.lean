import Nsq.Consumer.Run

/-!
# What a consumer does at times of its own

Some acts on a consumer are due a while after the consumer has come to ask for them: the end of a
pause, another try at a grant, a look at how credit is spread, a query of lookup services, another
attempt to connect. `chores` lists what a consumer asks for and how long it wants to wait; an
`Agenda` remembers when each of them is due.
-/

namespace Nsq.Consumer

/-- Something to be done at a time of its own. -/
inductive Chore where
  /-- End the pause. -/
  | resume
  /-- Try a grant again. -/
  | retry (addr : String) (count : Int)
  /-- Look how the credit is spread. -/
  | redistribute
  /-- Ask lookup services for the first time after the one that was asked at once. -/
  | firstLookUp
  /-- Ask lookup services. -/
  | lookUp
  /-- Ask lookup services before their time. -/
  | recheck
  /-- Come back to an address. -/
  | reconnect (addr : String)
  /-- Take a link for idle if it has had no more than so many messages. -/
  | idle (link heard : Nat)
  /-- Wait no longer for messages to be answered. -/
  | leave
deriving DecidableEq, Repr

/-- How long a grant waits before it is tried again. -/
def retryDelay : Nat := 5000

/-- How long a stop waits for messages to be answered. -/
def patience : Nat := 30000

/-- The milliseconds of an option. -/
def wait (o : DurationOption) (c : Consumer) : Nat := (c.config.durations o).millis

/-- The milliseconds that may be added to the first wait for a query, so that consumers which were
started together do not ask together. -/
def jitterSpan (c : Consumer) : Nat :=
  (((Double.ofInt (c.wait .lookupPollInterval) * c.config.jitter).truncate?).getD 0).toNat

/-- The links in use that are not idle, and how many messages came over each. -/
def wakeful (c : Consumer) : List (Nat × Nat) :=
  c.walk.filterMap fun i =>
    match c.links[i]? with
    | some l => if l.idle then none else some (i, l.heard)
    | none => none

/-- What a consumer asks for, and how long it wants to wait, in milliseconds. `started` says whether
the first wait for a query is over, and `draw` is left to chance. -/
def chores (started : Bool) (draw : Nat) (c : Consumer) : List (Chore × Nat) :=
  if c.exited then []
  else
    let interval := c.wait .lookupPollInterval
    let lookups : List (Chore × Nat) :=
      if c.lookups.isEmpty then []
      else if started then
        (.lookUp, interval) :: if c.recheck then [(.recheck, 0)] else []
      else [(.firstLookUp, draw % (c.jitterSpan + 1))]
    [(.redistribute, c.wait .rdyRedistributeInterval)] ++
      (if c.armed then [(.resume, c.pause / 1000000)] else []) ++
      (c.retries.map fun (addr, count) => (.retry addr count, retryDelay)) ++ lookups ++
      (c.reconnects.eraseDups.map fun addr => (.reconnect addr, interval)) ++
      (c.wakeful.map fun (i, heard) => (.idle i heard, c.wait .lowRdyIdleTimeout + 1)) ++
      (if c.stopping && !c.live.isEmpty then [(.leave, patience)] else [])

/-- When things are due, in milliseconds of some clock. -/
structure Agenda where
  /-- What is due when. -/
  entries : List (Chore × Nat) := []
  /-- Whether the first wait for a query is over. -/
  started : Bool := false

namespace Agenda

/-- When something is due. -/
def due? (a : Agenda) (k : Chore) : Option Nat :=
  (a.entries.find? fun e => e.1 == k).map Prod.snd

/-- Notes what a consumer asks for now; what was noted before stays as it is, and what the consumer
does not ask for any more is dropped. -/
def note (now draw : Nat) (c : Consumer) (a : Agenda) : Agenda :=
  { a with
    entries := (c.chores a.started draw).map fun (k, delay) => (k, (a.due? k).getD (now + delay)) }

/-- What is due, and the agenda without it. -/
def due (now : Nat) (a : Agenda) : List Chore × Agenda :=
  let (now, later) := a.entries.partition fun e => e.2 ≤ now
  let chores := now.map Prod.fst
  (chores, { entries := later, started := a.started || chores.contains .firstLookUp })

end Agenda

/-- The act by which a chore is done. The first wait for a query ends without one, and nothing is
left to do for a consumer that waits no longer. -/
def Chore.act? : Chore → Option Act
  | resume => some .resume
  | retry addr count => some (.retry addr count)
  | redistribute => some .redistribute
  | firstLookUp => none
  | lookUp => some .lookUp
  | recheck => some .lookUp
  | reconnect addr => some (.reconnect addr)
  | idle link _ => some (.idle link)
  | leave => none

end Nsq.Consumer
