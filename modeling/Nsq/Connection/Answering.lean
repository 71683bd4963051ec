import Nsq.Connection.Basic

/-!
# Answers on a connection

A final answer is booked first, which tells the owner what it means for the pace, and then written.
Once the end of the connection has begun an answer is only counted.
-/

namespace Nsq.Connection

/-- The delay of a requeued message: the given one, or the default once per attempt, up to the
longest. -/
def requeueDelay (m : Message) (delay : Option Duration) (c : Connection) : Duration :=
  delay.getD (min (c.policy.defaultDelay.times m.attempts) c.policy.maxDelay)

/-- The command that carries an answer. -/
def answerCommand (m : Message) (a : Answer) (c : Connection) : Command :=
  match a with
  | .finish => .finish m.id
  | .requeue delay _ => .requeue m.id (c.requeueDelay m delay)

/-- Counts an answer. -/
def countAnswer (c : Connection) : Connection := { c with inFlight := c.inFlight - 1 }

/-- Books an answer and tells the owner. -/
def bookAnswer (m : Message) (a : Answer) (c : Connection) : List Event × Connection :=
  let c := c.countAnswer
  let event : Event := match a with
    | .finish => .finished m.id c.inFlight
    | .requeue _ _ => .requeued m.id c.inFlight
  ([event, .pace a.signal], c)

/-- Writes a booked answer. The end begins when that fails, or when the end was asked for and this
was the last answer missing. -/
def sendAnswer (m : Message) (a : Answer) (c : Connection) : List Event × Connection :=
  match c.write (c.answerCommand m a) with
  | (.error _, events, c) => (events, c.beginClose)
  | (.ok (), events, c) => (events, if c.inFlight = 0 ∧ c.closing then c.beginClose else c)

/-- Takes an answer. -/
def answer (m : Message) (a : Answer) (c : Connection) : List Event × Connection :=
  if c.draining then ([], c.countAnswer)
  else
    let (booked, c) := c.bookAnswer m a
    let (sent, c) := c.sendAnswer m a
    (booked ++ sent, c)

/-- Takes a request for more time. -/
def touch (m : Message) (c : Connection) : List Event × Connection :=
  if c.draining then ([], c)
  else
    match c.write (.touch m.id) with
    | (.error _, events, c) => (events, c.beginClose)
    | (.ok (), events, c) => (events, c)

/-- Takes what passes of the calls on a message. -/
def request (m : Message) (r : Request) (c : Connection) : List Event × Connection :=
  match r with
  | .answer a => c.answer m a
  | .touch => c.touch m

end Nsq.Connection
