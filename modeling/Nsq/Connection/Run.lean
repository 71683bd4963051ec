import Nsq.Connection.Reading
import Nsq.Connection.Answering

/-!
# Runs of a connection

A connection together with the messages it has delivered. `Run.step` performs one act on it, of the
daemon, of the owner or of a holder of a message, and everything that follows from the act.
-/

namespace Nsq

/-- A message that was delivered, and the state that its copies share. -/
structure Delivery where
  /-- The message. -/
  message : Message
  /-- The state of its answers. -/
  state : Answered := {}
deriving DecidableEq, Repr

namespace Connection

/-- The messages among events. -/
def arrivals (events : List Event) : List Message :=
  events.filterMap fun
    | .message m _ _ => some m
    | _ => none

/-- A connection and what it has delivered, the oldest message first. -/
structure Run where
  /-- The connection. -/
  conn : Connection
  /-- The messages delivered. -/
  delivered : List Delivery := []
deriving DecidableEq

/-- An act on a connection. -/
inductive Act where
  /-- The owner books a credit. -/
  | setRdy (n : Int)
  /-- The daemon sends octets. -/
  | feed (b : Octets)
  /-- The daemon ends its octets. -/
  | endOfInput
  /-- The owner asks for the end. -/
  | close
  /-- Writes fail from now on, or no longer. -/
  | refuse (on : Bool)
  /-- The owner writes a command. -/
  | write (cmd : Command)
  /-- A holder of the message delivered as number `i` makes a call. -/
  | call (i : Nat) (k : Call)
deriving DecidableEq

/-- What an act gives back. -/
inductive Reply where
  /-- Nothing. -/
  | nothing
  /-- The credit before. -/
  | previous (rdy : Int)
  /-- Whether a command was written. -/
  | written (result : Except IoFault Unit)
  /-- Whether the message has its final answer. -/
  | responded (yes : Bool)
  /-- There is no such message. -/
  | noMessage

namespace Run

/-- Changes the connection and keeps the messages that arrive. -/
def advance (r : Run) (step : List Event × Connection) : List Event × Run :=
  (step.1, ⟨step.2, r.delivered ++ (arrivals step.1).map fun m => ⟨m, {}⟩⟩)

/-- Makes a call on a delivered message. -/
def call (i : Nat) (k : Call) (r : Run) : Reply × List Event × Run :=
  match r.delivered[i]? with
  | none => (.noMessage, [], r)
  | some d =>
    let (passed, state) := d.state.call k
    let r := { r with delivered := r.delivered.set i { d with state := state } }
    match passed with
    | none => (.responded state.responded, [], r)
    | some request => (.responded state.responded, r.advance (r.conn.request d.message request))

/-- Performs an act, without what follows from it. -/
def act (a : Act) (r : Run) : Reply × List Event × Run :=
  match a with
  | .setRdy n =>
    let (previous, conn) := r.conn.setRdy n
    (.previous previous, [], { r with conn := conn })
  | .feed b => (.nothing, r.advance (r.conn.push b).readAll)
  | .endOfInput => (.nothing, r.advance r.conn.pushEnd.readAll)
  | .close => (.nothing, [], { r with conn := r.conn.close })
  | .refuse on => (.nothing, [], { r with conn := { r.conn with refusing := on } })
  | .write cmd =>
    let (result, events, conn) := r.conn.write cmd
    (.written result, events, { r with conn := conn })
  | .call i k => r.call i k

/-- Performs an act and everything that follows from it. -/
def step (a : Act) (r : Run) : Reply × List Event × Run :=
  let (reply, events, r) := r.act a
  let (more, r) := r.advance r.conn.settle
  (reply, events ++ more, r)

/-- Performs acts one after another: all events, and where the run arrives. -/
def steps (r : Run) : List Act → List Event × Run
  | [] => ([], r)
  | a :: as =>
    let (_, events, r) := r.step a
    let (more, r) := r.steps as
    (events ++ more, r)

end Run

end Connection

end Nsq
