import Nsq.Connection.Reading
import Nsq.Publisher.Basic

/-!
# Runs of a publisher

A publisher together with its connection and the router of that connection. `Run.publish`, `feed`
and the other acts give the outcomes that they bring about, in order, each with the tag of its
transaction.

A fault on the connection makes the publisher give it up. Once the connection has closed, the router
gives up on what has no outcome, and the next publication may dial again.
-/

namespace Nsq.Publisher

variable {Tag : Type}

/-- A publisher at work. -/
structure Run (Tag : Type) where
  /-- The publisher. -/
  publisher : Publisher
  /-- Its connection. -/
  conn : Option Connection := none
  /-- The router of the connection; one that was never started hands nothing over. -/
  router : Router Tag := { running := false }

namespace Run

/-- The publisher gives its connection up. -/
def giveUp (r : Run Tag) : Run Tag :=
  { r with
    conn := if r.publisher.link = .connected then r.conn.map Connection.close else r.conn
    publisher := r.publisher.close }

/-- Passes something to the router. -/
def route (e : RouterEvent Tag) (r : Run Tag) : List (Outcome Tag) × Run Tag :=
  let (done, router) := r.router.step e
  (done, { r with router := router })

/-- Takes what the connection tells. -/
def hear (e : Connection.Event) (r : Run Tag) : List (Outcome Tag) × Run Tag :=
  match e with
  | .response data => r.route (.frame .response data)
  | .error data => r.route (.frame .error data)
  | .fault _ => ([], r.giveUp)
  | .closed _ =>
    let (done, r) := r.route .left
    (done, { r with publisher := r.publisher.routerGone })
  | _ => ([], r)

/-- Takes what the connection tells, one thing after another. -/
def hearAll (r : Run Tag) : List Connection.Event → List (Outcome Tag) × Run Tag
  | [] => ([], r)
  | e :: es =>
    let (done, r) := r.hear e
    let (more, r) := r.hearAll es
    (done ++ more, r)

/-- Performs a step of the connection, if there is one, and takes what it tells. -/
def advance (step : Connection → List Connection.Event × Connection) (r : Run Tag) :
    List (Outcome Tag) × Run Tag :=
  match r.conn with
  | none => ([], r)
  | some conn =>
    let (events, conn) := step conn
    { r with conn := some conn }.hearAll events

/-- Draws the conclusions from where the connection stands. -/
def settle (r : Run Tag) : List (Outcome Tag) × Run Tag := r.advance Connection.settle

/-- Performs a step of the connection and everything that follows from it. -/
def advanceFully (step : Connection → List Connection.Event × Connection) (r : Run Tag) :
    List (Outcome Tag) × Run Tag :=
  let (done, r) := r.advance step
  let (more, r) := r.settle
  (done ++ more, r)

/-- The connection that a dial brings about. -/
def opened (p : Publisher) (terms : Option Terms) : Connection where
  address := p.address
  policy := Connection.Policy.ofConfig p.config true
  maxRdy := Session.maxRdyOf terms

/-- Makes sure that there is a connection, for which `dial` may open a session. -/
def connect (dial : String → Except Failure (Option Terms)) (r : Run Tag) :
    Except Failure Unit × Run Tag :=
  let result := dial r.publisher.address
  match r.publisher.connect fun _ => result.map fun _ => () with
  | (.error failure, p) => (.error failure, { r with publisher := p })
  | (.ok (), p) =>
    if r.publisher.link = .connected then (.ok (), { r with publisher := p })
    else
      let terms := result.toOption.getD none
      (.ok (), { publisher := p, conn := some (opened p terms), router := {} })

/-- Writes a command to the connection; without one there is nothing to write to. -/
def write (cmd : Command) (r : Run Tag) :
    Except Failure Unit × List (Outcome Tag) × Run Tag :=
  match r.conn with
  | none => (.error .notConnected, [], r)
  | some conn =>
    let (written, events, conn) := conn.write cmd
    let (done, r) := { r with conn := some conn }.hearAll events
    let written := match written with
      | .ok () => .ok ()
      | .error fault => .error (.io fault)
    (written, done, r)

/-- Tries the connection with a command that does nothing. -/
def ping (dial : String → Except Failure (Option Terms)) (r : Run Tag) :
    Except Failure Unit × List (Outcome Tag) × Run Tag :=
  match r.connect dial with
  | (.error failure, r) => (.error failure, [], r)
  | (.ok (), r) =>
    let (written, done, r) := r.write .nop
    let (more, r) := r.settle
    (written, done ++ more, r)

/-- Hands a transaction over to the router, which writes its command. -/
def accept (t : Transaction Tag) (r : Run Tag) : List (Outcome Tag) × Run Tag :=
  if r.router.running then
    match r.conn with
    | none => ([], r)
    | some conn =>
      let (written, events, conn) := conn.write t.command
      let (done, r) := { r with conn := some conn }.hearAll events
      let (more, r) := r.route (.accepted t written)
      (done ++ more, r)
  else r.route (.accepted t (.error .notConnected))

/-- Publishes on a topic. A publication that is refused at once has no outcome. -/
def publish (dial : String → Except Failure (Option Terms)) (topic : String)
    (t : Transaction Tag) (r : Run Tag) : Except Failure Unit × List (Outcome Tag) × Run Tag :=
  if Name.isValidTopic topic then
    match r.connect dial with
    | (.error failure, r) => (.error failure, [], r)
    | (.ok (), r) =>
      let (done, r) := r.accept t
      let (more, r) := r.settle
      (.ok (), done ++ more, r)
  else (.error (.invalidTopic topic), [], r)

/-- The daemon sends octets. -/
def feed (b : Octets) (r : Run Tag) : List (Outcome Tag) × Run Tag :=
  r.advanceFully fun conn => (conn.push b).readAll

/-- The daemon ends its octets. -/
def endOfInput (r : Run Tag) : List (Outcome Tag) × Run Tag :=
  r.advanceFully fun conn => conn.pushEnd.readAll

/-- Writes fail from now on. -/
def refuse (r : Run Tag) : Run Tag :=
  { r with conn := r.conn.map fun conn => { conn with refusing := true } }

/-- Stops for good: the connection is given up, and all that has no outcome with it. -/
def stop (r : Run Tag) : List (Outcome Tag) × Run Tag :=
  if r.publisher.stopped then ([], r)
  else
    let r := r.giveUp
    let (done, r) := { r with publisher := r.publisher.stop }.route .left
    let (more, r) := { r with publisher := r.publisher.routerGone }.settle
    (done ++ more, r)

end Run

end Nsq.Publisher
