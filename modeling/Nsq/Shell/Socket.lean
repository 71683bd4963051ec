import Std.Async.TCP
import Std.Async.Timer
import Std.Sync.Channel
import Nsq.Net.SocketAddress
import Nsq.Session.Opening

/-!
# Sockets

The calls on the operating system that open connections, send and receive. What is said over a
connection is decided elsewhere.
-/

namespace Nsq.Shell

open Std.Async

/-- The address of a peer in the form that the system takes. -/
def systemAddress (a : Nsq.SocketAddress) : Std.Net.SocketAddress :=
  let port := UInt16.ofNat a.port
  match a.host with
  | .v4 os =>
    let part (k : Nat) : UInt8 := UInt8.ofNat (os.getD k 0)
    .v4 ⟨.ofParts (part 0) (part 1) (part 2) (part 3), port⟩
  | .v6 gs _ =>
    let part (k : Nat) : UInt16 := UInt16.ofNat (gs.getD k 0)
    .v6 ⟨.ofParts (part 0) (part 1) (part 2) (part 3) (part 4) (part 5) (part 6) (part 7), port⟩

/-- What a failure that the system reports stands for. The numbers of failures come negated. -/
def faultOf (e : IO.Error) : IoFault :=
  match e with
  | .noSuchThing _ code _ => if -code = 111 then .refused else .unreachable
  | .timeExpired _ _ => .timedOut
  | _ => .unreachable

/-- Waits for something to happen, but not longer than `millis`; zero stands for no bound. -/
def within {α : Type} (millis : Nat) (act : Async α) : IO (Option α) :=
  let bounded : Async (Option α) :=
    if millis = 0 then some <$> act
    else
      let happens : Async (Option α) := some <$> act
      let passes : Async (Option α) := do
        sleep ⟨(millis : Int)⟩
        pure none
      Async.race happens passes
  bounded.block

/-- An open connection. -/
structure Socket where
  /-- The connection. -/
  client : TCP.Socket.Client
  /-- How long a write may take, in milliseconds. -/
  patience : Nat
  /-- The reader of what the peer sends, if that is compressed. -/
  inflater : Option Deflate.Inflater := none

namespace Socket

/-- How many octets are received at once. -/
def chunk : UInt64 := 65536

/-- Connects to an address. -/
def dial (addr : String) (timeout patience : Nat) : IO (Except IoFault Socket) := do
  match Nsq.SocketAddress.resolve addr with
  | .error fault => return .error fault
  | .ok a =>
    try
      let client ← TCP.Socket.Client.mk
      match ← within timeout (client.connect (systemAddress a)) with
      | some () =>
        client.noDelay
        return .ok { client := client, patience := patience }
      | none => return .error .timedOut
    catch e => return .error (faultOf e)

/-- Sends octets; tells whether that succeeded. -/
def sendOctets (b : Octets) (s : Socket) : IO Bool := do
  if b.isEmpty then return true
  try
    return (← within s.patience (s.client.send ⟨b.toArray⟩)).isSome
  catch _ => return false

/-- Receives octets; none at their end or when none come in time. -/
def receive (timeout : Nat) (s : Socket) : IO (Option Octets) := do
  try
    match ← within timeout (s.client.recv? chunk) with
    | some (some b) => return some b.toList
    | _ => return none
  catch _ => return none

/-- Sends commands; tells whether that succeeded. -/
def sendCommands (cs : List Command) (s : Socket) : IO Bool :=
  let b := cs.flatMap Command.octets
  s.sendOctets (if s.inflater.isSome then Deflate.stored b else b)

/-- Reads octets that were received, as far as they can be read by now. -/
def unpack (b : Octets) (s : Socket) : Octets × Socket :=
  match s.inflater with
  | none => (b, s)
  | some z =>
    let (plain, z) := z.push b
    (plain, { s with inflater := some z })

end Socket

/-- A connection with a session opened over it. -/
structure Opened where
  /-- The connection. -/
  socket : Socket
  /-- The terms of the session. -/
  terms : Option Terms
  /-- What was received behind the opening. -/
  rest : Octets

/-- Goes on opening a session: `input` was received so far and `sent` octets were sent. -/
partial def negotiate (c : Config) (socket : Socket) (input : Octets) (sent : Nat) (ended : Bool) :
    IO (Except Failure Opened) := do
  let (result, w) := Session.connect c false { input := ⟨[input]⟩ }
  let outgoing := w.travelling
  let delivered ← socket.sendOctets (outgoing.drop sent)
  if Session.isUnderWay result && delivered && !ended then
    let more ← socket.receive (c.durations .readTimeout).millis
    negotiate c socket (input ++ more.getD []) outgoing.length more.isNone
  else
    match result with
    | .error failure => return .error failure
    | .ok terms =>
      return .ok ⟨{ socket with inflater := w.inflater }, terms, w.input.octets⟩

/-- Dials a daemon and opens a session. -/
def dialDaemon (c : Config) (addr : String) : IO (Except Failure Opened) := do
  let millis (o : DurationOption) : Nat := (c.durations o).millis
  match ← Socket.dial addr (millis .dialTimeout) (millis .writeTimeout) with
  | .error fault => return .error (.io fault)
  | .ok socket => negotiate c socket [] 0 false

/-- Something that reaches a program. -/
inductive Input where
  /-- A peer sent octets. -/
  | octets (link : Nat) (b : Octets)
  /-- A peer ended its octets. -/
  | ended (link : Nat)
  /-- Somebody typed something; nothing stands for the end. -/
  | typed (b : Octets)
  /-- Some time has passed. -/
  | tick
  /-- Somebody wants the program to end. -/
  | interrupted
deriving Inhabited

/-- What reaches a program, in order. -/
abbrev Inbox := Std.Channel Input

/-- Puts something into an inbox. -/
def put (inbox : Inbox) (i : Input) : BaseIO Unit := do
  discard (inbox.send i)

/-- Takes the next thing out of an inbox. -/
def next (inbox : Inbox) : BaseIO Input := do
  IO.wait (← inbox.recv)

/-- Puts all that a peer sends into an inbox. -/
partial def pump (inbox : Inbox) (link : Nat) (client : TCP.Socket.Client) : Async Unit := do
  let got : Option ByteArray ← try client.recv? Socket.chunk catch _ => pure none
  match got with
  | some b =>
    put inbox (.octets link b.toList)
    pump inbox link client
  | none => put inbox (.ended link)

/-- Puts a tick into an inbox every `millis`. -/
partial def clock (inbox : Inbox) (millis : Nat) : Async Unit := do
  sleep ⟨(millis : Int)⟩
  put inbox .tick
  clock inbox millis

end Nsq.Shell
