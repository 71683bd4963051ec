import Nsq.Consumer.Delivery

/-!
# The ends of links and of consumers

When a connection has closed, its credit returns to the budget and its link leaves the table, unless
another link serves the address by then. A consumer that stops asks its daemons for no more
messages, and has stopped once its last link and its last handler are gone.
-/

namespace Nsq.Consumer

/-- The consumer has stopped; nobody comes back to an address any more. -/
def exit (c : Consumer) : Consumer := { c with exited := true, reconnects := [] }

/-- No handler gets messages any more. -/
def stopServing (c : Consumer) : Consumer :=
  if c.serving then
    let c := { c with serving := false }
    if c.handlers = 0 then c.exit else c
  else c

/-- Whether the credit that a link leaves is of use elsewhere. -/
def freesCredit (conn : Connection) (c : Consumer) : Bool :=
  (c.retries.any fun e => e.1 == conn.address) || 0 < conn.rdy

/-- Sees to it that a lost daemon is found again: through a lookup service where there is one, or by
coming back to an address that is still wanted. -/
def seekAgain (addr : String) (c : Consumer) : Consumer :=
  if !c.lookups.isEmpty then { c with recheck := true }
  else if c.daemons.contains addr then { c with reconnects := c.reconnects ++ [addr] }
  else c

/-- The connection of a link has closed. -/
def retire (i : Nat) (c : Consumer) : Consumer :=
  match c.conn? i with
  | none => c
  | some conn =>
    let frees := c.freesCredit conn
    let total := word64 (c.totalRdy - conn.rdy)
    let c := { c.dropRetry conn.address with totalRdy := total, share := 0 }
    let c := { c with live := c.live.filter fun e => e != (conn.address, i) }
    let c := if frees && ((c.live.length : Int) = c.maxInFlight || c.inBackoff) then
        { c with respread := true }
      else c
    if c.stopping then if c.live.isEmpty then c.stopServing else c
    else c.seekAgain conn.address

/-- Draws the conclusions from where a link stands. -/
def settleLink (c : Consumer) (i : Nat) : Consumer :=
  match c.conn? i with
  | none => c
  | some conn =>
    let (events, conn) := conn.settle
    let c := c.putConn i conn
    if events.isEmpty then c else c.retire i

/-- Handlers without work leave when no more messages will come; the last one to leave ends all. -/
def dismiss (c : Consumer) : Consumer :=
  if c.serving || !c.offers.isEmpty then c
  else
    let left := c.handlers - c.freeHandlers
    if 0 < c.freeHandlers && left = 0 then { c with handlers := 0 }.exit
    else { c with handlers := left }

/-- Draws the conclusions from where all links and handlers stand. -/
def settle (c : Consumer) : Consumer :=
  ((List.range c.links.length).foldl settleLink c).dismiss

/-- Writes to a link and lets a failure pass; the connection sees to its own end. -/
def tell (cmd : Command) (c : Consumer) (i : Nat) : Consumer :=
  match c.conn? i with
  | none => c
  | some conn => c.putConn i (conn.write cmd).2.2

/-- Asks for the stop, and the daemons for no more messages. -/
def stop (c : Consumer) : Consumer :=
  if c.stopping then c
  else
    let c := { c with stopping := true }
    if c.live.isEmpty then c.stopServing else c.walk.foldl (tell .startClose) c

end Nsq.Consumer
