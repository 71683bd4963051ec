import Std.Async.Signal
import Std.Async.System
import Nsq.Consumer.Outgoing
import Nsq.Failure.Complaint
import Nsq.Lookup.Exchange
import Nsq.Shell.Socket
import Nsq.Tail.Basic

/-!
# The program that tails a topic

It keeps the sockets of a consumer, tells the consumer what arrives and what time it is, sends what
the consumer writes, and prints the messages. The consumer decides everything else.
-/

namespace Nsq.Shell

open Std.Async

/-- The socket of a link. -/
structure Line where
  /-- The socket, as long as it is in use. -/
  socket : Option Socket
  /-- When octets came over it last. -/
  heardAt : Nat

/-- A tail at work. -/
structure Tailing where
  /-- What is tailed, and how it is shown. -/
  options : Tail.Options
  /-- What reaches the program. -/
  inbox : Inbox
  /-- The consumer. -/
  consumer : Consumer
  /-- What the consumer does at times of its own. -/
  agenda : Consumer.Agenda := {}
  /-- The sockets of its links, in the order of the links. -/
  lines : List Line := []

/-- How many numbers are drawn for an act. -/
def draws : Nat := 64

/-- Draws numbers at random. -/
def drawChance : IO (Nat → Nat) := do
  let numbers ← (List.range draws).mapM fun _ => IO.rand 0 (2 ^ 62)
  return fun k => numbers.getD (k % draws) 0

/-- Milliseconds of a clock that never goes back. -/
def clockNow : IO Nat := IO.monoMsNow

namespace Tailing

/-- The number of milliseconds of an option. -/
def millis (o : DurationOption) (t : Tailing) : Nat := t.consumer.wait o

/-- Changes the line of a link. -/
def modifyLine (i : Nat) (f : Line → Line) (t : Tailing) : Tailing :=
  { t with lines := t.lines.modify i f }

/-- The socket of a link. -/
def socket? (i : Nat) (t : Tailing) : Option Socket := t.lines[i]?.bind Line.socket

/-- Lets go of the sockets of closed links. -/
def letGo (t : Tailing) : IO Tailing := do
  let closed := t.consumer.links.zipIdx.filter fun (l, _) => l.conn.closed
  let mut t := t
  for (_, i) in closed do
    match t.socket? i with
    | none => pure ()
    | some s =>
      try s.client.shutdown.block catch _ => pure ()
      t := t.modifyLine i fun l => { l with socket := none }
  return t

/-- Keeps the sockets of links that an act has opened, and listens to them. -/
def keep (opened : List (String × Opened)) (t : Tailing) : IO Tailing := do
  let now ← clockNow
  let mut lines := t.lines
  for link in t.consumer.links.drop t.lines.length do
    let socket := (opened.lookup link.conn.address).map Opened.socket
    match socket with
    | some s => discard (pump t.inbox lines.length s.client).asTask
    | none => pure ()
    lines := lines ++ [⟨socket, now⟩]
  return { t with lines := lines }

mutual

/-- Performs an act on the consumer, and all that the network and the screen have to do with it. -/
partial def perform (a : Consumer.Act) (opened : List (String × Opened))
    (seen : Consumer.Sightings) (t : Tailing) : IO (Consumer.Reply × Tailing) := do
  let first := t.lines.length
  let chance ← drawChance
  let (reply, consumer) ← match t.consumer.perform false (seen.surroundings chance) a with
    | .ok done => pure done
    | .error o => throw (IO.userError o.message)
  let t ← keep opened { t with consumer := consumer }
  let mut t ← (← t.send).present
  t ← t.letGo
  for (link, i) in (t.consumer.links.drop first).zipIdx first do
    match opened.lookup link.conn.address with
    | some o =>
      if !o.rest.isEmpty then
        let (_, next) ← t.perform (.feed i o.rest) [] {}
        t := next
    | none => pure ()
  return (reply, t)

/-- Performs an act that calls on nobody. -/
partial def simply (a : Consumer.Act) (t : Tailing) : IO Tailing := do
  let (_, t) ← t.perform a [] {}
  return t

/-- Sends what the consumer wrote. A link that does not take it is given up. -/
partial def send (t : Tailing) : IO Tailing := do
  let (written, consumer) := t.consumer.handOut
  let mut t := { t with consumer := consumer }
  for (commands, i) in written.zipIdx do
    match t.socket? i with
    | none => pure ()
    | some s =>
      if !commands.isEmpty && !(← s.sendCommands commands) then
        t ← t.simply (.refuse i true)
        t ← t.simply (.closeLink i)
  return t

/-- Shows the messages that wait for it, and answers them. One that cannot be shown is done too. -/
partial def present (t : Tailing) : IO Tailing := do
  match t.consumer.busy with
  | [] => return { t with consumer := t.consumer.forget }
  | n :: _ =>
    match t.consumer.handed[n]? with
    | some h =>
      match Tail.line t.options.style h.message with
      | .ok line =>
        let out ← IO.getStdout
        out.putStrLn line
        out.flush
      | .error _ => pure ()
    | none => pure ()
    t.simply (.handle n {})

end

/-- Dials the addresses that the consumer would dial. -/
def dialAll (addrs : List String) (t : Tailing) :
    IO (List (String × Except Failure Opened)) :=
  (t.consumer.dials addrs).mapM fun addr => do
    return (addr, ← dialDaemon t.consumer.config addr)

/-- What the consumer is told of dials. -/
def dialed (results : List (String × Except Failure Opened)) :
    List (String × Except Failure Dialed) :=
  results.map fun (addr, r) => (addr, r.map fun o => { terms := o.terms })

/-- The dials that succeeded. -/
def opened (results : List (String × Except Failure Opened)) : List (String × Opened) :=
  results.filterMap fun (addr, r) => r.toOption.map fun o => (addr, o)

/-- Performs an act that connects to addresses. -/
def connecting (a : Consumer.Act) (addrs : List String) (t : Tailing) :
    IO (Consumer.Reply × Tailing) := do
  let results ← t.dialAll addrs
  t.perform a (opened results) { dialed := dialed results }

/-- Receives all that a service sends. -/
partial def receiveAll (timeout : Nat) (s : Socket) (got : Octets) : IO Octets := do
  match ← s.receive timeout with
  | some b => receiveAll timeout s (got ++ b)
  | none => return got

/-- Asks a lookup service. -/
def ask (r : Lookup.Request) (t : Tailing) :
    IO (Except Lookup.TransportFault Lookup.Reply) := do
  let timeout := t.millis .lookupPollTimeout
  if r.url.scheme = "https" then return .error .encrypted
  match ← Socket.dial r.peer timeout timeout with
  | .error .refused => return .error .refused
  | .error .timedOut => return .error .timedOut
  | .error .unknownHost => return .error (.unknownHost r.peer)
  | .error _ => return .error .unreachable
  | .ok s =>
    if ← s.sendOctets r.octets then
      match Lookup.Reply.ofOctets (← receiveAll timeout s []) with
      | some reply => return .ok reply
      | none => return .error .unreadable
    else return .error .unreachable

/-- Asks lookup services one after another until one of them has an answer. -/
def askInTurn (t : Tailing) : List Lookup.Request →
    IO (List (Lookup.Request × Except Lookup.TransportFault Lookup.Reply) × List String)
  | [] => return ([], [])
  | r :: rs => do
    let reply ← t.ask r
    match Lookup.understand r reply with
    | .ok a => return ([(r, reply)], t.consumer.found a)
    | .error _ =>
      let (more, addrs) ← t.askInTurn rs
      return (more ++ [(r, reply)], addrs)

/-- Performs an act that asks lookup services and connects to the daemons that they name. -/
def lookingUp (a : Consumer.Act) (requests : List Lookup.Request) (t : Tailing) :
    IO (Consumer.Reply × Tailing) := do
  let (replies, addrs) ← t.askInTurn requests
  let results ← t.dialAll addrs
  t.perform a (opened results) { dialed := dialed results, replies := replies }

/-- Begins to read from the source. -/
def start (t : Tailing) : IO (Consumer.Reply × Tailing) := do
  let source := t.options.source
  let t ← t.simply (.addHandlers 1)
  if t.options.isLookup then
    let requests := match Lookup.checkAddress source with
      | .ok () =>
        let request := (Lookup.request source t.options.topic).toOption
        request.toList.flatMap (List.replicate Consumer.lookupAttempts)
      | .error _ => []
    t.lookingUp (.addLookups [source]) requests
  else t.connecting (.connect [source]) [source]

/-- Does a chore. -/
def doChore (k : Consumer.Chore) (t : Tailing) : IO Tailing := do
  match k.act? with
  | none =>
    return if k = .leave then { t with consumer := t.consumer.exit } else t
  | some (.reconnect addr) => return (← t.connecting (.reconnect addr) [addr]).2
  | some .lookUp =>
    let (_, t) ← t.lookingUp .lookUp t.consumer.queries
    return { t with consumer := t.consumer.takeRecheck.2 }
  | some a => t.simply a

/-- Takes links for ended over which nothing has come for too long. -/
def checkSilence (now : Nat) (t : Tailing) : IO Tailing := do
  let mut t := t
  for (l, i) in t.lines.zipIdx do
    if l.socket.isSome && l.heardAt + t.millis .readTimeout < now then
      t ← t.simply (.endOfInput i)
  return t

/-- Does what is due. -/
def doDue (t : Tailing) : IO Tailing := do
  let now ← clockNow
  let (chores, agenda) := t.agenda.due now
  let mut t ← { t with agenda := agenda }.checkSilence now
  for k in chores do
    t ← t.doChore k
  return t

/-- Octets came over a link. -/
def hear (i : Nat) (b : Octets) (t : Tailing) : IO Tailing := do
  let now ← clockNow
  match t.socket? i with
  | none => return t
  | some s =>
    let (plain, s) := s.unpack b
    let t ← (t.modifyLine i fun _ => ⟨some s, now⟩).simply (.feed i plain)
    if s.inflater.any Deflate.Inflater.isCorrupt then t.simply (.endOfInput i) else return t

/-- Works until the consumer has stopped. -/
partial def loop (t : Tailing) : IO Unit := do
  if t.consumer.exited then return
  let chance ← drawChance
  let t := { t with agenda := t.agenda.note (← clockNow) (chance 0) t.consumer }
  match ← next t.inbox with
  | .octets i b => loop (← t.hear i b)
  | .ended i => loop (← t.simply (.endOfInput i))
  | .tick => loop (← t.doDue)
  | .interrupted => loop (← t.simply .stop)
  | .typed _ => loop t

end Tailing

/-- Puts a note into an inbox whenever a signal comes. -/
partial def watch (inbox : Inbox) (w : Signal.Waiter) : Async Unit := do
  discard (await (← w.wait))
  put inbox .interrupted
  watch inbox w

/-- How often the program looks at the clock, in milliseconds. -/
def tickLength : Nat := 100

/-- The configuration that holds on this host where nothing is set. -/
def initialConfig : IO Config := do
  let hostname ← try System.getHostName catch _ => pure "unknown"
  return Config.initial hostname

/-- Tails a topic. -/
def tail (args : List String) : IO (Option Complaint) := do
  match Tail.Options.ofArgs args with
  | none => return some (.usage Tail.usage)
  | some options =>
    match options.subscription (← initialConfig) with
    | .error failure => return some (.failure failure)
    | .ok subscription =>
      let inbox : Inbox ← Std.Channel.new none
      for signal in [Signal.sigint, Signal.sigterm] do
        discard (watch inbox (← Signal.Waiter.mk signal true)).asTask
      let t : Tailing :=
        { options := options, inbox := inbox, consumer := .ofSubscription subscription }
      match ← t.start with
      | (.result (.error failure), _) => return some (.failure failure)
      | (_, t) =>
        discard (clock inbox tickLength).asTask
        t.loop
        return none

end Nsq.Shell
