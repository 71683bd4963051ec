import Nsq.Consumer.Pace
import Nsq.Connection.Answering

/-!
# Answers of handlers

What handlers say about their messages goes to the connection the message came over. The connection
books an answer before it writes it, and in between the consumer counts it and adapts its pace.
-/

namespace Nsq.Consumer

/-- Counts a booked answer, or takes what it says about the pace. -/
def hear (chance : Nat → Nat) (e : Connection.Event) (c : Consumer) : Consumer :=
  match e with
  | .finished _ _ => { c with finished := c.finished + 1 }
  | .requeued _ _ => { c with requeued := c.requeued + 1 }
  | .pace s => c.signal chance s
  | _ => c

/-- Hears events one after another. -/
def hearAll (chance : Nat → Nat) (events : List Connection.Event) (c : Consumer) : Consumer :=
  events.foldl (fun c e => c.hear chance e) c

/-- Passes a final answer to the connection of its message. -/
def passAnswer (chance : Nat → Nat) (i : Nat) (m : Message) (a : Answer) (c : Consumer) :
    Consumer :=
  match c.conn? i with
  | none => c
  | some conn =>
    if conn.draining then c.putConn i conn.countAnswer
    else
      let (events, conn) := conn.bookAnswer m a
      let c := (c.putConn i conn).hearAll chance events
      match c.conn? i with
      | none => c
      | some conn => c.putConn i (conn.sendAnswer m a).2

/-- Passes a request to the connection of its message. -/
def pass (chance : Nat → Nat) (i : Nat) (m : Message) (r : Request) (c : Consumer) : Consumer :=
  match r with
  | .answer a => c.passAnswer chance i m a
  | .touch =>
    match c.conn? i with
    | none => c
    | some conn => c.putConn i (conn.touch m).2

/-- Passes requests one after another. -/
def passAll (chance : Nat → Nat) (i : Nat) (m : Message) (rs : List Request) (c : Consumer) :
    Consumer :=
  rs.foldl (fun c r => c.pass chance i m r) c

/-- Replaces the state of a message that a handler got. -/
def putState (n : Nat) (s : Answered) (c : Consumer) : Consumer :=
  { c with handed := c.handed.modify n fun h => { h with state := s } }

/-- A holder of a message that a handler got makes a call; tells whether the message has its final
answer then. -/
def call (chance : Nat → Nat) (n : Nat) (k : Call) (c : Consumer) : Option Bool × Consumer :=
  match c.handed[n]? with
  | none => (none, c)
  | some h =>
    let (passed, state) := h.state.call k
    let c := (c.putState n state).passAll chance h.link h.message passed.toList
    (some state.responded, c)

/-- A handler that is busy with a message makes its calls and ends. -/
def finishHandling (chance : Nat → Nat) (n : Nat) (h : Handling) (c : Consumer) : Consumer :=
  match c.handed[n]? with
  | none => c
  | some d =>
    let (passed, state) := d.state.handle h
    let c := { c with busy := c.busy.filter (· != n) }
    (c.putState n state).passAll chance d.link d.message passed

end Nsq.Consumer
