import Nsq.Publisher.Queue

/-!
# The router of a connection

While a publisher is connected, one router hands its commands to the connection and gives the
answers of the daemon to their transactions. It works until the connection closes or the publisher
stops; then it gives up on what has no outcome, and on what still comes in. A failed write does not
stop it by itself: it asks for the connection to be closed and goes on until that has happened.
-/

namespace Nsq.Publisher

variable {Tag : Type}

/-- What a router meets. -/
inductive RouterEvent (Tag : Type) where
  /-- A publisher hands over a transaction; the write of its command ends like this. -/
  | accepted (t : Transaction Tag) (written : Except IoFault Unit)
  /-- The daemon sends a frame. -/
  | frame (kind : FrameKind) (data : Octets)
  /-- The connection is closed, or the publisher stopped. -/
  | left

/-- A router. -/
structure Router (Tag : Type) where
  /-- The transactions without an outcome. -/
  pending : Queue Tag := []
  /-- Whether it still hands commands over. -/
  running : Bool := true
  /-- Whether it asked for the connection to be closed. -/
  closing : Bool := false
  /-- The commands it handed over, in order, and whether each was written. -/
  handed : List (Command × Bool) := []

namespace Router

/-- One event: the outcomes that it brings about, and the router after it. -/
def step (r : Router Tag) : RouterEvent Tag → List (Outcome Tag) × Router Tag
  | .accepted t written =>
    if r.running then
      ([], { r with
        pending := r.pending.push t
        closing := r.closing || !written.isOk
        handed := r.handed ++ [(t.command, written.isOk)] })
    else ([t.finish (some .notConnected)], r)
  | .frame kind data =>
    if r.running then
      let (outcome, pending) := r.pending.settle kind data
      (outcome.toList, { r with pending := pending })
    else ([], r)
  | .left =>
    if r.running then (r.pending.abandon, { r with pending := [], running := false }) else ([], r)

/-- Several events: all outcomes in order, and the router after them. -/
def run (r : Router Tag) : List (RouterEvent Tag) → List (Outcome Tag) × Router Tag
  | [] => ([], r)
  | e :: es =>
    let (done, r) := r.step e
    let (more, r) := r.run es
    (done ++ more, r)

end Router

end Nsq.Publisher
