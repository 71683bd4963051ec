import Nsq.Consumer.Answering
import Nsq.Connection.Reading

/-!
# From connections to handlers

A message that arrives over a link is offered to the handlers, and the link reads on once one of
them has taken it. A handler gives a message up that was attempted too often, and is busy with any
other until it ends. When no handler gets messages any more, arriving ones are sent back.
-/

namespace Nsq.Consumer

/-- The handlers that can take a message. -/
def freeHandlers (c : Consumer) : Nat := c.handlers - c.lost - c.busy.length

/-- A message arrives over a link. -/
def offer (chance : Nat → Nat) (i : Nat) (m : Message) (c : Consumer) : Consumer :=
  let total := word64 (c.totalRdy - 1)
  let c : Consumer := { c with totalRdy := total, received := c.received + 1 }
  let c := c.modifyLink i fun l => { l with idle := false, heard := l.heard + 1 }
  if c.serving then
    let c : Consumer := { c with offers := c.offers ++ [⟨i, m⟩] }
    c.modifyLink i fun l => { l with conn := { l.conn with stalled := true } }
  else
    (c.refill i).passAll chance i m (({} : Answered).call (.answer (.requeue none false))).1.toList

/-- Takes what a connection tells while it is read. -/
def note (chance : Nat → Nat) (i : Nat) (e : Connection.Event) (c : Consumer) : Consumer :=
  match e with
  | .response data =>
    if Frame.isCloseWait data then
      c.modifyLink i fun l => { l with conn := l.conn.close }
    else c
  | .message m _ _ => c.offer chance i m
  | _ => c

/-- One turn of reading on a link, if there is something to read. -/
def readLink (chance : Nat → Nat) (i : Nat) (c : Consumer) : Option Consumer :=
  match c.conn? i with
  | none => none
  | some conn =>
    conn.read.map fun (events, conn) =>
      let c := events.foldl (fun c e => c.note chance i e) (c.putConn i conn)
      c.modifyLink i fun l => if l.conn.stalled then l else { l with conn := l.conn.lookUp }

/-- Gives a message up: the handler is told, and the message is finished. A handler that panics when
it is told is lost, and the message with it. -/
def giveUp (chance : Nat → Nat) (n : Nat) (c : Consumer) : Consumer :=
  match c.handed[n]? with
  | none => c
  | some h =>
    let c := { c with failed := c.failed + 1 }
    let (passed, state) := h.state.calls c.givingUp.calls
    let c := (c.putState n state).passAll chance h.link h.message passed
    match c.givingUp.verdict with
    | .panicked _ => { c with lost := c.lost + 1 }
    | _ => (c.call chance n (.answer .finish)).2

/-- A handler takes a message. -/
def take (chance : Nat → Nat) (o : Offer) (c : Consumer) : Consumer :=
  let n := c.handed.length
  let h : Handed := { message := o.message, link := o.link }
  let c : Consumer := { c with handed := c.handed ++ [h] }
  if o.message.isExhausted then c.giveUp chance n
  else { c with busy := c.busy ++ [n], handled := c.handled + 1 }

/-- Hands the oldest offer to a handler, and lets its link read on. -/
def handOver (chance : Nat → Nat) (o : Offer) (c : Consumer) : Consumer :=
  let c := c.modifyLink o.link fun l => { l with conn := { l.conn with stalled := false } }
  let c := (c.refill o.link).take chance o
  c.modifyLink o.link fun l => { l with conn := l.conn.lookUp }

/-- The next thing to do of itself: an offer goes to a free handler, or a link reads. -/
def work? (chance : Nat → Nat) (c : Consumer) : Option Consumer :=
  match c.offers with
  | o :: rest =>
    if 0 < c.freeHandlers then some ({ c with offers := rest }.handOver chance o)
    else (List.range c.links.length).findSome? fun i => c.readLink chance i
  | [] => (List.range c.links.length).findSome? fun i => c.readLink chance i

/-- Does at most `fuel` things of itself. -/
def workFor (chance : Nat → Nat) : (fuel : Nat) → Consumer → Consumer
  | 0, c => c
  | fuel + 1, c =>
    match c.work? chance with
    | none => c
    | some c => workFor chance fuel c

/-- A bound on the things to do of itself: every octet at hand may be read and every message be
handed over, and every link may stop reading. -/
def load (c : Consumer) : Nat :=
  c.offers.length + (c.links.map fun l => 2 * l.conn.unread.length + 2).foldr (· + ·) 0

/-- Does all that is to be done of itself. -/
def work (chance : Nat → Nat) (c : Consumer) : Consumer :=
  workFor chance c.load c

end Nsq.Consumer
