import Nsq.Failure.Complaint
import Nsq.Feed.Basic
import Nsq.Publisher.Run
import Nsq.Shell.Tail

/-!
# The program that feeds a topic

It reads lines and publishes them one after another, each when the one before it has its outcome.
While it waits for either it answers what the daemon sends.
-/

namespace Nsq.Shell

open Std.Async

/-- A feed at work. -/
structure Feeding where
  /-- What is fed. -/
  options : Feed.Options
  /-- What reaches the program. -/
  inbox : Inbox
  /-- The publisher. -/
  run : Publisher.Run Unit
  /-- The socket of its connection. -/
  socket : Option Socket := none
  /-- The number of the connection; what comes over an earlier one does not count. -/
  number : Nat := 0
  /-- What was typed and not published yet. -/
  typed : Octets := []
  /-- Whether more was asked for. -/
  listening : Bool := false
  /-- Whether nothing more will be typed. -/
  ended : Bool := false

namespace Feeding

/-- Sends what the publisher wrote. -/
def send (f : Feeding) : IO Feeding := do
  match f.run.conn, f.socket with
  | some conn, some s =>
    let f := { f with run := { f.run with conn := some { conn with sent := [] } } }
    if conn.sent.isEmpty || (← s.sendCommands conn.sent) then return f
    else
      let (_, run) := f.run.refuse.giveUp.settle
      return { f with run := run }
  | _, _ => return f

/-- Dials the daemon if the publisher needs it, and listens to it. -/
def dial (f : Feeding) : IO (Except Failure (Option Terms) × Octets × Feeding) := do
  if f.run.publisher.link ≠ .idle then return (.error .notConnected, [], f)
  match ← dialDaemon f.run.publisher.config f.run.publisher.address with
  | .error failure => return (.error failure, [], f)
  | .ok o =>
    let number := f.number + 1
    discard (pump f.inbox number o.socket.client).asTask
    return (.ok o.terms, o.rest, { f with socket := some o.socket, number := number })

/-- Takes octets of the daemon. -/
def hear (link : Nat) (b : Octets) (f : Feeding) :
    IO (List (Publisher.Outcome Unit) × Feeding) := do
  match f.socket with
  | some s =>
    if link = f.number then
      let (plain, s) := s.unpack b
      let (done, run) := f.run.feed plain
      let f ← { f with socket := some s, run := run }.send
      return (done, f)
    else return ([], f)
  | none => return ([], f)

/-- Tries the connection. -/
def ping (f : Feeding) : IO (Except Failure Unit × Feeding) := do
  let (terms, rest, f) ← f.dial
  let (result, _, run) := f.run.ping fun _ => terms
  let f ← { f with run := run }.send
  let (_, f) ← f.hear f.number rest
  return (result, f)

/-- Asks for more of what is typed, unless that is done. -/
def listen (f : Feeding) : IO Feeding := do
  if f.listening then return f
  let stdin ← IO.getStdin
  let reading : IO Unit := do
    let b ← stdin.read 65536
    put f.inbox (.typed b.toList)
  discard (IO.asTask reading Task.Priority.dedicated)
  return { f with listening := true }

/-- Something was typed. -/
def type (b : Octets) (f : Feeding) : Feeding :=
  { f with typed := f.typed ++ b, listening := false, ended := f.ended || b.isEmpty }

/-- The daemon has ended its octets. -/
def hangUp (link : Nat) (f : Feeding) : List (Publisher.Outcome Unit) × Feeding :=
  if link = f.number then
    let (done, run) := f.run.endOfInput
    (done, { f with run := run })
  else ([], f)

/-- Waits for the outcome of a transaction. -/
partial def await (f : Feeding) (done : List (Publisher.Outcome Unit)) :
    IO (Option Failure × Feeding) := do
  match done with
  | o :: _ => return (o.failure, f)
  | [] =>
    match ← next f.inbox with
    | .octets link b =>
      let (done, f) ← f.hear link b
      f.await done
    | .ended link =>
      let (done, f) := f.hangUp link
      f.await done
    | .typed b => (f.type b).await []
    | .tick | .interrupted => f.await []

/-- Publishes a message and waits for the outcome. -/
def publish (body : Octets) (f : Feeding) : IO (Option Failure × Feeding) := do
  let (terms, rest, f) ← f.dial
  let command := Command.publish f.options.topic body
  let (result, done, run) := f.run.publish (fun _ => terms) f.options.topic ⟨command, some ()⟩
  let f ← { f with run := run }.send
  match result with
  | .error failure => return (some failure, f)
  | .ok () =>
    let (more, f) ← f.hear f.number rest
    f.await (done ++ more)

/-- Publishes the lines that were typed; the last one may lack its end. -/
partial def publishLines (f : Feeding) : IO (Option Complaint × Feeding) := do
  let line := f.typed.takeWhile (· != 0x0A)
  let rest := f.typed.drop line.length
  if rest.isEmpty && !(f.ended && !line.isEmpty) then return (none, f)
  let f := { f with typed := rest.drop 1 }
  match Feed.message (line ++ rest.take 1) with
  | .error fault => return (some (.input fault), f)
  | .ok none => f.publishLines
  | .ok (some body) =>
    match ← f.publish body with
    | (some failure, f) => return (some (.failure failure), f)
    | (none, f) => f.publishLines

/-- Works until nothing more is typed. -/
partial def loop (f : Feeding) : IO (Option Complaint) := do
  match ← f.publishLines with
  | (some complaint, _) => return some complaint
  | (none, f) =>
    if f.ended then return none
    let f ← f.listen
    match ← next f.inbox with
    | .typed b => (f.type b).loop
    | .octets link b => (← f.hear link b).2.loop
    | .ended link => (f.hangUp link).2.loop
    | .tick | .interrupted => f.loop

end Feeding

/-- Feeds a topic. -/
def feed (args : List String) : IO (Option Complaint) := do
  match Feed.Options.ofArgs args with
  | none => return some (.usage Feed.usage)
  | some options =>
    match Publisher.create options.daemon (← initialConfig) with
    | .error failure => return some (.failure failure)
    | .ok publisher =>
      let inbox : Inbox ← Std.Channel.new none
      let f : Feeding := { options := options, inbox := inbox, run := { publisher := publisher } }
      match ← f.ping with
      | (.error failure, _) => return some (.failure failure)
      | (.ok (), f) => f.loop

end Nsq.Shell
