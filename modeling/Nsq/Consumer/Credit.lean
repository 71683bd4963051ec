import Nsq.Consumer.Basic

/-!
# Granting credit

Every grant goes through `Consumer.updateRdy`: it is cut down to what the daemon takes and to what
the budget leaves, and a link that is left with nothing is tried again later. `Consumer.refill`
grants a link its share where little of the last grant is left or too much.
-/

namespace Nsq.Consumer

/-- Books a grant on a link and writes it. There is no need to tell a daemon without credit that it
has none. -/
def sendRdy (i : Nat) (count : Int) (c : Consumer) : Except Failure Unit × Consumer :=
  match c.conn? i with
  | none => (.error .notConnected, c)
  | some conn =>
    if count = 0 ∧ conn.lastRdy = 0 then (.ok (), c)
    else
      let (previous, conn) := conn.setRdy count
      let (written, _, conn) := conn.write (.ready count)
      let total := word64 (c.totalRdy + (count - previous))
      let c := { c.check .subtract (count - previous) with totalRdy := total }.putConn i conn
      match written with
      | .ok () => (.ok (), c)
      | .error fault => (.error (.io fault), c)

/-- Forgets the grant to be tried again at an address. -/
def dropRetry (addr : String) (c : Consumer) : Consumer :=
  { c with retries := c.retries.filter fun e => e.1 != addr }

/-- Has a grant tried again at an address. -/
def addRetry (addr : String) (count : Int) (c : Consumer) : Consumer :=
  { c.dropRetry addr with retries := (c.dropRetry addr).retries ++ [(addr, count)] }

/-- The credit that a budget leaves beside what is granted over all links. -/
def spare (budget : Int) (c : Consumer) : Int := budget - c.totalRdy

/-- The credit that the budget leaves to a link which holds `rdy`. In a program that checks its sums
this is the sum itself, or the program ends (`measure`). -/
def roomFor (rdy : Int) (c : Consumer) : Int := word64 (c.spare c.maxInFlight + rdy)

/-- Looks what the budget leaves to a connection, which waits for no grant any more. -/
def measure (conn : Connection) (c : Consumer) : Consumer :=
  ((c.dropRetry conn.address).check .subtract (c.spare c.maxInFlight)).check .add
    (c.spare c.maxInFlight + conn.rdy)

/-- Grants a link a credit, as far as daemon and budget allow. -/
def updateRdy (i : Nat) (count : Int) (c : Consumer) : Except Failure Unit × Consumer :=
  match c.conn? i with
  | none => (.error .notConnected, c)
  | some conn =>
    if conn.closing then (.error .closing, c)
    else
      let count := min count conn.maxRdy
      let c := c.measure conn
      let room := c.roomFor conn.rdy
      if room ≤ 0 ∧ 0 < count then
        (.error .overMaxInFlight, if conn.rdy = 0 then c.addRetry conn.address count else c)
      else c.sendRdy i (if 0 < room then min room count else count)

/-- Grants a link a credit and lets a failure pass. -/
def grant (i : Nat) (count : Int) (c : Consumer) : Consumer := (c.updateRdy i count).2

/-- Grants several links the same credit, one after another. -/
def grantAll (links : List Nat) (count : Int) (c : Consumer) : Consumer :=
  links.foldl (fun c i => c.grant i count) c

/-- Whether a link shall get its share now: at most one message of its credit is left, or less than
a quarter, or more than the share. -/
def wantsRefill (share : Int) (conn : Connection) : Bool :=
  conn.rdy ≤ 1 || conn.rdy < conn.lastRdy.tdiv 4 || (0 < share && share < conn.rdy)

/-- Grants a link its share where that is due and the pace is not reduced. -/
def refill (i : Nat) (c : Consumer) : Consumer :=
  if c.inBackoff || c.inPause then c
  else
    match c.conn? i with
    | none => c
    | some conn => if wantsRefill c.perLink conn then c.grant i c.perLink else c

/-- Refills several links, one after another. -/
def refillAll (links : List Nat) (c : Consumer) : Consumer :=
  links.foldl (fun c i => c.refill i) c

/-- Tries a grant again at an address that may have lost its link. -/
def retry (addr : String) (count : Int) (c : Consumer) : Consumer :=
  match c.serving? addr with
  | some i => c.grant i count
  | none => c.dropRetry addr

/-- Changes the budget, and at full pace the credit of all links with it. -/
def changeMaxInFlight (n : Int) (c : Consumer) : Consumer :=
  if c.maxInFlight = n then c
  else
    let c := { c with maxInFlight := n }
    if c.inBackoff then c else c.refillAll c.walk

end Nsq.Consumer
