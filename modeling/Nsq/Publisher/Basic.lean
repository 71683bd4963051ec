import Nsq.Publisher.Router
import Nsq.Name

/-!
# Publishers

A publisher is bound to one daemon. It dials at the first publication and, after it has lost a
connection and the router of that connection is gone, at the next one. `Publisher.prepare` decides
whether a publication may go on to the router.
-/

namespace Nsq

/-- How a publisher stands with its daemon. -/
inductive LinkState where
  /-- There is no connection, and one may be dialed. -/
  | idle
  /-- There is a connection and a router. -/
  | connected
  /-- The connection is lost, its router not yet gone. -/
  | lost
deriving DecidableEq, Repr

/-- A publisher. -/
structure Publisher where
  /-- The address of its daemon. -/
  address : String
  /-- Its configuration. -/
  config : Config
  /-- How it stands with its daemon. -/
  link : LinkState := .idle
  /-- Whether it was stopped. -/
  stopped : Bool := false

namespace Publisher

/-- A publisher for the daemon at an address. The configuration must be valid. -/
def create (address : String) (config : Config) : Except Failure Publisher :=
  match config.validate with
  | .ok () => .ok { address := address, config := config }
  | .error fault => .error (.config fault)

/-- Makes sure that there is a connection. `dial` opens one. -/
def connect (dial : String → Except Failure Unit) (p : Publisher) :
    Except Failure Unit × Publisher :=
  if p.link = .connected then (.ok (), p)
  else if p.stopped then (.error .stopped, p)
  else
    match p.link with
    | .connected => (.ok (), p)
    | .lost => (.error .notConnected, p)
    | .idle =>
      match dial p.address with
      | .ok () => (.ok (), { p with link := .connected })
      | .error failure => (.error failure, p)

/-- Lets a publication on a topic pass: the name must be one, and there must be a connection. -/
def prepare (dial : String → Except Failure Unit) (topic : String) (p : Publisher) :
    Except Failure Unit × Publisher :=
  if Name.isValidTopic topic then p.connect dial else (.error (.invalidTopic topic), p)

/-- The connection is to be given up. -/
def close (p : Publisher) : Publisher :=
  if p.link = .connected then { p with link := .lost } else p

/-- The router of a lost connection is gone. -/
def routerGone (p : Publisher) : Publisher :=
  if p.link = .lost then { p with link := .idle } else p

/-- Stops for good. -/
def stop (p : Publisher) : Publisher :=
  if p.stopped then p else { p with stopped := true }.close

end Publisher

end Nsq
