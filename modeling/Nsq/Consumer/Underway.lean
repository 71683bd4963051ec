import Nsq.Consumer.Run

/-!
# Consumers with operations under way

Some operations of a consumer take their time, and others go on meanwhile. A connection is set up in
phases, the end of a link is reported by the link itself, a stop raises its flag before it looks at
the table of links, and handlers leave one by one. Here each phase is a turn of its own (`Turn`),
and any number of attempts, reports and handlers may take their turns in any order (`Underway.run`).

The order of some events is noted in a history, which no turn looks at.
-/

namespace Nsq

namespace Consumer

/-! ### Phases -/

/-- Takes a link out of the table, unless another one serves its address by then. -/
def remove (addr : String) (i : Nat) (c : Consumer) : Consumer :=
  { c with live := c.live.filter fun e => e != (addr, i) }

/-- The end of a link is booked: its credit returns to the budget, and the link leaves the table. -/
def unlink (i : Nat) (conn : Connection) (c : Consumer) : Consumer :=
  let frees := c.freesCredit conn
  let total := word64 (c.totalRdy - conn.rdy)
  let c := ({ c.dropRetry conn.address with totalRdy := total, share := 0 } : Consumer).remove
    conn.address i
  if frees && ((c.live.length : Int) = c.maxInFlight || c.inBackoff) then
    { c with respread := true }
  else c

/-- Whether a handler is about to leave: it has no work, and no more messages will come. -/
def leaves (c : Consumer) : Bool := !c.serving && c.offers.isEmpty && 0 < c.freeHandlers

/-- A handler leaves; the last one ends all. -/
def leave (c : Consumer) : Consumer :=
  if c.leaves then
    let c := { c with handlers := c.handlers - 1 }
    if c.handlers = 0 then c.exit else c
  else c

/-- An act that is done at once, and has nothing to do with connections that are being set up or
come to their end. -/
def Act.isBrief : Act → Bool
  | .attach _ | .retire _ | .connect _ | .disconnect _ | .reconnect _ | .addLookups _ | .lookUp
  | .found _ | .stop => false
  | _ => true

/-- What a consumer knows of where its daemons are. -/
structure Whereabouts where
  /-- The addresses of daemons to come back to. -/
  daemons : List String
  /-- The addresses of lookup services. -/
  lookups : List String
  /-- How many endpoints were taken from that list. -/
  turn : Nat
  /-- Whether the lookup services shall be asked before their time. -/
  recheck : Bool
  /-- The addresses with an attempt to reconnect under way. -/
  reconnects : List String
  /-- Whether a connection is asked for. -/
  connected : Bool

/-- Learns where daemons are. -/
def locate (w : Whereabouts) (c : Consumer) : Consumer :=
  { c with
    daemons := w.daemons
    lookups := w.lookups
    turn := w.turn
    recheck := w.recheck
    reconnects := w.reconnects
    connected := c.connected || w.connected }

end Consumer

namespace Underway

/-- How far an attempt to connect has come. -/
inductive Phase where
  /-- The address was taken down; the end of the connection may be asked for already. -/
  | takenDown (closing : Bool)
  /-- A session was opened over a link, which reads from now on. -/
  | opened (link : Nat)
  /-- The channel was subscribed over the link. -/
  | subscribed (link : Nat)
deriving DecidableEq

/-- An attempt to connect. -/
structure Attempt where
  /-- The address. -/
  addr : String
  /-- How far it has come. -/
  phase : Phase := .takenDown false
deriving DecidableEq

/-- The link of an attempt whose daemon was dialed. -/
def Attempt.link? (a : Attempt) : Option Nat :=
  match a.phase with
  | .takenDown _ => none
  | .opened i | .subscribed i => some i

/-- The report of an end, from when the link has left the table. -/
structure Report where
  /-- The address of the link. -/
  addr : String
  /-- How many links were left in the table. -/
  left : Nat
deriving DecidableEq

/-- Something in the history of a consumer. -/
inductive Milestone where
  /-- A link enters the table. -/
  | entered (link : Nat)
  /-- The end of a link is reported; it is not in the table any more. -/
  | ended (link : Nat)
  /-- A stop looks at the table, which has so many links. -/
  | looked (links : Nat)
  /-- From now on no handler gets messages; the table has so many links. -/
  | shut (links : Nat)
deriving DecidableEq

end Underway

/-- A consumer with operations under way. -/
structure Underway where
  /-- The consumer. -/
  consumer : Consumer
  /-- The attempts to connect. -/
  attempts : List Underway.Attempt := []
  /-- The reports of ends. -/
  reports : List Underway.Report := []
  /-- Whether a stop was asked for that has not looked at the table. -/
  looking : Bool := false
  /-- What has happened, the latest last. -/
  history : List Underway.Milestone := []

namespace Underway

/-- Something that is done without interruption. -/
inductive Turn where
  /-- An act that is done at once. -/
  | act (env : Surroundings) (a : Consumer.Act)
  /-- Handlers will do this with the messages that they give up. -/
  | instruct (h : Handling)
  /-- A handler takes the oldest offer. -/
  | take (chance : Nat → Nat)
  /-- A link reads. -/
  | read (chance : Nat → Nat) (i : Nat)
  /-- A handler leaves. -/
  | leave
  /-- The consumer learns where daemons are. -/
  | locate (w : Consumer.Whereabouts)
  /-- An attempt to connect begins. -/
  | takeDown (addr : String)
  /-- The daemon of an attempt is dialed, and a session opened. -/
  | dial (k : Nat) (outcome : Except Failure Dialed)
  /-- The channel is subscribed. -/
  | subscribe (k : Nat)
  /-- The link of an attempt enters the table. -/
  | enter (k : Nat)
  /-- The owner leaves a daemon. -/
  | disconnect (addr : String)
  /-- A link settles; if it has come to its end, it reports that and leaves the table. -/
  | settle (i : Nat)
  /-- A report of an end is concluded. -/
  | conclude (k : Nat)
  /-- A stop is asked for. -/
  | stop
  /-- The stop looks at the table. -/
  | look

/-- A consumer of a subscription, without handlers and connections. -/
def start (s : Subscription) : Underway := { consumer := .ofSubscription s }

/-- Goes on with another consumer. -/
def put (c : Consumer) (s : Underway) : Underway := { s with consumer := c }

/-- From now on no handler gets messages. -/
def stopServing (s : Underway) : Underway :=
  { s with
    consumer := s.consumer.stopServing
    history :=
      if s.consumer.serving then s.history ++ [.shut s.consumer.live.length] else s.history }

/-- A handler takes the oldest offer. -/
def take (chance : Nat → Nat) (s : Underway) : Underway :=
  match s.consumer.offers with
  | [] => s
  | o :: rest =>
    if 0 < s.consumer.freeHandlers then
      s.put (({ s.consumer with offers := rest } : Consumer).handOver chance o)
    else s

/-- An attempt to connect begins, if nothing stands in its way. -/
def takeDown (addr : String) (s : Underway) : Underway :=
  match s.consumer.takeDown addr with
  | (.ok (), c) => { s.put c with attempts := s.attempts ++ [{ addr }] }
  | (.error _, c) => s.put c

/-- An attempt ends without a connection. -/
def giveUp (k : Nat) (addr : String) (c : Consumer) (s : Underway) : Underway :=
  { s.put (c.unpend addr) with attempts := s.attempts.eraseIdx k }

/-- The daemon of an attempt is dialed, and a session opened. -/
def dial (k : Nat) (outcome : Except Failure Dialed) (s : Underway) : Underway :=
  match s.attempts[k]? with
  | some ⟨addr, .takenDown closing⟩ =>
    match outcome with
    | .error _ => s.giveUp k addr s.consumer
    | .ok d =>
      let (i, c) := s.consumer.openLink (s.consumer.linkTo addr d)
      let c := if closing then c.modifyConn i Connection.close else c
      { s.put c with attempts := s.attempts.set k ⟨addr, .opened i⟩ }
  | _ => s

/-- The channel is subscribed. -/
def subscribe (k : Nat) (s : Underway) : Underway :=
  match s.attempts[k]? with
  | some ⟨addr, .opened i⟩ =>
    match s.consumer.subscribe i with
    | (.error _, c) => s.giveUp k addr c
    | (.ok (), c) => { s.put c with attempts := s.attempts.set k ⟨addr, .subscribed i⟩ }
  | _ => s

/-- The link of an attempt enters the table. -/
def enter (k : Nat) (s : Underway) : Underway :=
  match s.attempts[k]? with
  | some ⟨addr, .subscribed i⟩ =>
    { s.put (s.consumer.goLive addr i) with
      attempts := s.attempts.eraseIdx k
      history := s.history ++ [.entered i] }
  | _ => s

/-- A connection that is being set up is asked for its end; without a link it will remember. -/
def callOff (k : Nat) (a : Attempt) (s : Underway) : Underway :=
  match a.link? with
  | none => { s with attempts := s.attempts.set k ⟨a.addr, .takenDown true⟩ }
  | some i => s.put (s.consumer.modifyConn i Connection.close)

/-- The owner leaves a daemon. If no link in use leads there, an attempt to connect to it is called
off. -/
def disconnect (addr : String) (s : Underway) : Underway :=
  let left := s.put (s.consumer.disconnect addr).2
  if s.consumer.daemons.contains addr && (s.consumer.serving? addr).isNone then
    match s.attempts.zipIdx.find? fun (a, _) => a.addr == addr with
    | some (a, k) => left.callOff k a
    | none => left
  else left

/-- A link settles. If it has come to its end, the link reports that, and leaves the table. -/
def settle (i : Nat) (s : Underway) : Underway :=
  match s.consumer.conn? i with
  | none => s
  | some conn =>
    let (events, conn) := conn.settle
    let c := s.consumer.putConn i conn
    if events.isEmpty then s.put c
    else
      let c := c.unlink i conn
      { s.put c with
        reports := s.reports ++ [⟨conn.address, c.live.length⟩]
        history := s.history ++ [.ended i] }

/-- A report of an end is concluded: the address is sought again, or, while the consumer stops, the
last link has everything else stop. -/
def conclude (k : Nat) (s : Underway) : Underway :=
  match s.reports[k]? with
  | none => s
  | some r =>
    let s := { s with reports := s.reports.eraseIdx k }
    if s.consumer.stopping then if r.left = 0 then s.stopServing else s
    else s.put (s.consumer.seekAgain r.addr)

/-- A stop is asked for. -/
def stop (s : Underway) : Underway :=
  if s.consumer.stopping then s
  else { s.put { s.consumer with stopping := true } with looking := true }

/-- The stop looks at the table: without links everything else stops, and otherwise the daemons are
asked for no more messages. -/
def look (s : Underway) : Underway :=
  if s.looking then
    let s := { s with
      looking := false
      history := s.history ++ [Milestone.looked s.consumer.live.length] }
    if s.consumer.live.isEmpty then s.stopServing
    else s.put (s.consumer.walk.foldl (Consumer.tell .startClose) s.consumer)
  else s

/-- A turn is taken. -/
def turn (t : Turn) (s : Underway) : Underway :=
  match t with
  | .act env a => if a.isBrief then s.put (s.consumer.act env a).2 else s
  | .instruct h => s.put { s.consumer with givingUp := h }
  | .take chance => s.take chance
  | .read chance i => s.put ((s.consumer.readLink chance i).getD s.consumer)
  | .leave => s.put s.consumer.leave
  | .locate w => s.put (s.consumer.locate w)
  | .takeDown addr => s.takeDown addr
  | .dial k outcome => s.dial k outcome
  | .subscribe k => s.subscribe k
  | .enter k => s.enter k
  | .disconnect addr => s.disconnect addr
  | .settle i => s.settle i
  | .conclude k => s.conclude k
  | .stop => s.stop
  | .look => s.look

/-- Turns are taken one after another. -/
def run (ts : List Turn) (s : Underway) : Underway := ts.foldl (fun s t => s.turn t) s

/-- Nothing is under way, and no handler is about to leave. -/
structure AtRest (s : Underway) : Prop where
  attempts : s.attempts = []
  reports : s.reports = []
  looking : s.looking = false
  leaves : s.consumer.leaves = false

end Underway

end Nsq
