import Nsq.Connection.Basic

/-!
# Reading from a connection

The octets of the daemon are read frame by frame, as far as they have arrived: `Connection.read`
takes one turn and `Connection.readAll` takes all that are possible. Between two frames a connection
looks whether somebody asked for the end, and a frame that it waits for already is still read then.
-/

namespace Nsq.Connection

/-- A message as the owner gets it. -/
def stamp (m : Message) (c : Connection) : Message :=
  { m with address := c.address, maxAttempts := c.policy.maxAttempts }

/-- Takes a frame. -/
def receive (f : Frame) (c : Connection) : List Event × Connection :=
  match f.kind with
  | .error => ([.error f.data], c)
  | .response =>
    if f.data = Frame.heartbeatData then
      match c.write .nop with
      | (.ok (), events, c) => (.heartbeat :: events, c)
      | (.error _, events, c) => (.heartbeat :: events, c.endReading)
    else ([.response f.data], c)
  | .message =>
    match Message.decode f.data with
    | .ok m =>
      let c := c.arrive
      ([.message (c.stamp m) c.rdy c.inFlight], c)
    | .error fault =>
      let (events, c) := c.report fault
      (events, c.endReading)

/-- Gives up reading because of a fault, which is told only to an owner that did not ask for the
end. -/
def breakOff (fault : IoFault) (c : Connection) : List Event × Connection :=
  let (events, c) := if c.closing then ([], c) else c.report fault
  (events, c.endReading)

/-- One turn of reading, if there is something to read. -/
def read (c : Connection) : Option (List Event × Connection) :=
  if !c.reading || c.stalled then none
  else
    match Frame.front c.policy.maxFrame c.unread with
    | .frame f rest => some ({ c with unread := rest }.receive f)
    | .fault fault => some (c.breakOff fault)
    | .incomplete => if c.ended then some (c.breakOff .shortRead) else none

/-- Looks between two frames whether somebody asked for the end. -/
def lookUp (c : Connection) : Connection :=
  if c.reading && c.closing then c.endReading else c

/-- At most `fuel` turns of reading. -/
def readFor : (fuel : Nat) → Connection → List Event × Connection
  | 0, c => ([], c)
  | fuel + 1, c =>
    match c.read with
    | none => ([], c)
    | some (events, c) =>
      let (more, c) := c.lookUp.readFor fuel
      (events ++ more, c)

/-- Reads all that has arrived. Every turn takes an octet or ends the reading. -/
def readAll (c : Connection) : List Event × Connection :=
  c.readFor (c.unread.length + 1)

/-- Octets of the daemon arrive. -/
def push (b : Octets) (c : Connection) : Connection :=
  if c.reading then { c with unread := c.unread ++ b } else c

/-- The daemon ends its octets. -/
def pushEnd (c : Connection) : Connection := { c with ended := true }

end Nsq.Connection
