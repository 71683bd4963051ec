import Nsq.Publisher.Basic

/-!
# Publishers and their routers, turn by turn

A publisher dials, gives a connection up and stops in several phases, and so do the reader of a
connection that ends and the router that is told of it. Others go on between two phases, except
where they need the guard, which a dial and a stop hold to their end. Here each phase is a turn of
its own (`Turn`), and the turns of all of them may be taken in any order (`Bond.run`).

What is handed over, written and answered is left out: `Run` has it, for operations that are not
interrupted. The order of some events is noted in a history, which no turn looks at.
-/

namespace Nsq.Publisher

/-- How far the reader of a connection has come. -/
inductive Reader where
  /-- There is no session yet. -/
  | fresh
  /-- It reads. -/
  | reading
  /-- It reports a fault, and waits until the connection was given up. -/
  | reporting
  /-- It reads no more, and the end of its connection is yet to be reported. -/
  | ended
  /-- The end of its connection was reported. -/
  | over
deriving DecidableEq

/-- A reader that reports a fault reads no more when that is done. -/
def Reader.afterReport : Reader → Reader
  | .reporting => .ended
  | r => r

/-- How far the router of a connection has come. -/
inductive Routing where
  /-- There is no router yet. -/
  | absent
  /-- It hands commands over. -/
  | running
  /-- It gives up on what still comes in. -/
  | clearing
  /-- It is gone. -/
  | gone
deriving DecidableEq

/-- A dial, the connection that it brings about and the router of the connection. -/
structure Dial where
  /-- The reader of the connection. -/
  reader : Reader := .fresh
  /-- Whether the connection was asked to close. -/
  closing : Bool := false
  /-- The router. -/
  router : Routing := .absent
deriving DecidableEq

namespace Bond

/-- How far a dial has come. -/
inductive Phase where
  /-- A session is being opened. -/
  | opening
  /-- The connection reads and writes. -/
  | opened
  /-- It is the connection of the publisher. -/
  | stored
  /-- The publisher counts as connected. -/
  | announced
  /-- Who gives the connection up waits for its router from now on. -/
  | watched
deriving DecidableEq

/-- What the guard is held for. -/
inductive Holder where
  /-- A dial, maybe for a publication. -/
  | dialing (n : Nat) (phase : Phase) (publishes : Bool)
  /-- A stop that is yet to tell the router. -/
  | stopping
  /-- A stop that is yet to give the connection up. -/
  | exiting
  /-- A stop that gives the connection up. -/
  | closing
deriving DecidableEq

/-- Who gives a connection up. -/
inductive Caller where
  /-- The reader of a connection. -/
  | reader (k : Nat)
  /-- A stop. -/
  | stop
  /-- A router or a publication whose write failed. -/
  | other
deriving DecidableEq

/-- A connection is being given up: the publisher counts as connected no more. -/
structure Closing where
  /-- Who gives it up. -/
  caller : Caller
  /-- Whether the connection was asked to close. -/
  asked : Bool := false
deriving DecidableEq

/-- Something in the history of a publisher. -/
inductive Milestone where
  /-- The publisher counts as connected. -/
  | announced (n : Nat)
  /-- Who gives the connection of a dial up waits for its router from now on. -/
  | watched (n : Nat)
  /-- A reader reports a fault, and the publisher does not count as connected. -/
  | ignored (k : Nat)
  /-- Who gives a connection up looks up the router to wait for. -/
  | sought
  /-- The end of a connection is reported, whereupon the router of a dial is told to leave, while
  the publisher counts as connected. -/
  | severed (k n : Nat)
deriving DecidableEq

end Bond

/-- A publisher with its connections and their routers. -/
structure Bond where
  /-- The publisher. -/
  publisher : Publisher
  /-- All dials. -/
  dials : List Dial := []
  /-- The dial whose connection is the publisher's. -/
  conn : Option Nat := none
  /-- The dial whose router is told to leave when an end is reported. -/
  signal : Option Nat := none
  /-- The dial whose router is waited for when a connection is given up. -/
  watched : Option Nat := none
  /-- Whether routers are told that the publisher stops. -/
  exiting : Bool := false
  /-- What the guard is held for. -/
  guard : Option Bond.Holder := none
  /-- The connections that are being given up. -/
  closings : List Bond.Closing := []
  /-- The routers that have to be gone before the publisher may dial again. -/
  waits : List (Option Nat) := []
  /-- The publications that are not sure of a connection yet. -/
  arriving : Nat := 0
  /-- The publications that wait for a router to take them. -/
  waiting : Nat := 0
  /-- What has happened, the latest last. -/
  history : List Bond.Milestone := []

namespace Bond

/-- Something that is done without interruption. -/
inductive Turn where
  /-- A publication arrives. -/
  | arrive
  /-- A publication finds the publisher connected. -/
  | pass
  /-- A router takes a publication. -/
  | take
  /-- A publication sees that the publisher stops. -/
  | refuse
  /-- Somebody without a connection makes sure that there is one. -/
  | dial (publishes : Bool)
  /-- Who holds the guard goes on; a session that is being opened may fail. -/
  | proceed (succeeds : Bool)
  /-- A stop begins. -/
  | stop
  /-- A router or a publication whose write failed gives the connection up. -/
  | close
  /-- A reader meets a fault. -/
  | fault (k : Nat)
  /-- The connection that is being given up is asked to close. -/
  | ask (j : Nat)
  /-- The router to wait for is looked up, and who gave the connection up goes on. -/
  | seek (j : Nat)
  /-- A router that was waited for is gone. -/
  | release (j : Nat)
  /-- The end of a connection is reported. -/
  | report (k : Nat)
  /-- A router is told to leave. -/
  | leave (k : Nat)
  /-- A router that nobody needs any more is gone. -/
  | finish (k : Nat)

/-- A publisher for the daemon at an address, which has done nothing yet. -/
def start (address : String) (config : Config) : Bond := { publisher := { address, config } }

/-- How the publisher stands with its daemon. -/
def link (s : Bond) : LinkState := s.publisher.link

/-- Changes a dial. -/
def modify (k : Nat) (f : Dial → Dial) (s : Bond) : Bond := { s with dials := s.dials.modify k f }

/-- The reader of a connection gets somewhere. -/
def setReader (k : Nat) (reader : Reader) (s : Bond) : Bond :=
  s.modify k fun d => { d with reader := reader }

/-- The router of a connection gets somewhere. -/
def setRouter (k : Nat) (router : Routing) (s : Bond) : Bond :=
  s.modify k fun d => { d with router := router }

/-- Something is added to the history. -/
def note (m : Milestone) (s : Bond) : Bond := { s with history := s.history ++ [m] }

/-- Whether a router takes publications, if only to give up on them. -/
def receives (s : Bond) : Bool :=
  s.dials.any fun d => d.router = .running || d.router = .clearing

/-- Whether the guard is held for a publication. -/
def dialsToPublish (s : Bond) : Bool :=
  match s.guard with
  | some (.dialing _ _ publishes) => publishes
  | _ => false

/-- A publication is sure of a connection. -/
def assure (s : Bond) : Bond := { s with arriving := s.arriving - 1, waiting := s.waiting + 1 }

/-- A dial begins. Whatever router could still be told to leave is told so. -/
def begin (publishes : Bool) (s : Bond) : Bond :=
  { s with
    dials := s.dials ++ [{}]
    signal := some s.dials.length
    guard := some (.dialing s.dials.length .opening publishes)
    arriving := if publishes then s.arriving - 1 else s.arriving }

/-- Somebody makes sure that there is a connection. -/
def dial (publishes : Bool) (s : Bond) : Bond :=
  let refused := { s with arriving := if publishes then s.arriving - 1 else s.arriving }
  if s.guard.isSome || publishes && s.arriving = 0 then s
  else if s.publisher.stopped then refused
  else
    match s.link with
    | .connected => if publishes then s.assure else s
    | .lost => refused
    | .idle => s.begin publishes

/-- A dial goes on. -/
def goOn (n : Nat) (publishes succeeds : Bool) (s : Bond) : Phase → Bond
  | .opening =>
    if succeeds then
      { s.setReader n .reading with guard := some (.dialing n .opened publishes) }
    else { s with guard := none }
  | .opened => { s with conn := some n, guard := some (.dialing n .stored publishes) }
  | .stored =>
    { s.note (.announced n) with
      publisher := { s.publisher with link := .connected }
      guard := some (.dialing n .announced publishes) }
  | .announced =>
    { s.note (.watched n) with
      watched := some n
      guard := some (.dialing n .watched publishes) }
  | .watched =>
    { s.setRouter n .running with
      guard := none
      waiting := if publishes then s.waiting + 1 else s.waiting }

/-- Somebody gives the connection up, if there is one. -/
def lose (caller : Caller) (s : Bond) : Bond :=
  { s with publisher := s.publisher.close, closings := s.closings ++ [{ caller }] }

/-- Who holds the guard goes on. -/
def proceed (succeeds : Bool) (s : Bond) : Bond :=
  match s.guard with
  | none => s
  | some (.dialing n phase publishes) => s.goOn n publishes succeeds phase
  | some .stopping => { s with exiting := true, guard := some .exiting }
  | some .exiting =>
    if s.link = .connected then { s.lose .stop with guard := some .closing }
    else { s with guard := none }
  | some .closing => s

/-- A stop begins, unless there was one. -/
def stop (s : Bond) : Bond :=
  if s.guard.isSome || s.publisher.stopped then s
  else { s with publisher := { s.publisher with stopped := true }, guard := some .stopping }

/-- A reader meets a fault. It reports that, unless the connection was asked to close. -/
def fault (k : Nat) (s : Bond) : Bond :=
  match s.dials[k]? with
  | some ⟨.reading, closing, _⟩ =>
    let ended := s.setReader k .ended
    if closing then ended
    else if s.link = .connected then (s.setReader k .reporting).lose (.reader k)
    else ended.note (.ignored k)
  | _ => s

/-- The connection of the publisher is asked to close. -/
def ask (j : Nat) (s : Bond) : Bond :=
  match s.closings[j]? with
  | some ⟨caller, false⟩ =>
    let asked := match s.conn with
      | some n => s.modify n fun d => { d with closing := true }
      | none => s
    { asked with closings := s.closings.set j ⟨caller, true⟩ }
  | _ => s

/-- Who gave the connection up goes on. -/
def goBack (s : Bond) : Caller → Bond
  | .reader k =>
    s.modify k fun d => { d with reader := d.reader.afterReport }
  | .stop => { s with guard := if s.guard = some .closing then none else s.guard }
  | .other => s

/-- The router to wait for is looked up. -/
def seek (j : Nat) (s : Bond) : Bond :=
  match s.closings[j]? with
  | some ⟨caller, true⟩ =>
    ({ s.note .sought with
      closings := s.closings.eraseIdx j
      waits := s.waits ++ [s.watched] } : Bond).goBack caller
  | _ => s

/-- Whether the router of a dial is gone. -/
def isGone (r : Option Nat) (s : Bond) : Bool :=
  match r with
  | none => true
  | some k => (s.dials[k]?).any fun d => d.router = .gone

/-- When a router that was waited for is gone, the publisher may dial again. -/
def release (j : Nat) (s : Bond) : Bond :=
  match s.waits[j]? with
  | some r =>
    if s.isGone r then
      { s with publisher := { s.publisher with link := .idle }, waits := s.waits.eraseIdx j }
    else s
  | none => s

/-- The end of a connection is reported. -/
def report (k : Nat) (s : Bond) : Bond :=
  match s.guard, s.dials[k]? with
  | none, some ⟨.ended, _, _⟩ =>
    let s' := { s.setReader k .over with signal := none }
    match s.link, s.signal with
    | .connected, some n => s'.note (.severed k n)
    | _, _ => s'
  | _, _ => s

/-- A router is told to leave. -/
def leave (k : Nat) (s : Bond) : Bond :=
  match s.dials[k]? with
  | some ⟨_, _, .running⟩ =>
    if s.signal ≠ some k ∨ s.exiting then s.setRouter k .clearing else s
  | _ => s

/-- A router is gone when no publication is under way. -/
def finish (k : Nat) (s : Bond) : Bond :=
  match s.dials[k]? with
  | some ⟨_, _, .clearing⟩ =>
    if s.arriving = 0 ∧ s.waiting = 0 ∧ s.dialsToPublish = false then s.setRouter k .gone else s
  | _ => s

/-- A turn is taken. -/
def turn (t : Turn) (s : Bond) : Bond :=
  match t with
  | .arrive => { s with arriving := s.arriving + 1 }
  | .pass => if 0 < s.arriving ∧ s.link = .connected then s.assure else s
  | .take => if s.receives then { s with waiting := s.waiting - 1 } else s
  | .refuse => if s.exiting then { s with waiting := s.waiting - 1 } else s
  | .dial publishes => s.dial publishes
  | .proceed succeeds => s.proceed succeeds
  | .stop => s.stop
  | .close => if s.link = .connected then s.lose .other else s
  | .fault k => s.fault k
  | .ask j => s.ask j
  | .seek j => s.seek j
  | .release j => s.release j
  | .report k => s.report k
  | .leave k => s.leave k
  | .finish k => s.finish k

/-- Turns are taken one after another. -/
def run (ts : List Turn) (s : Bond) : Bond := ts.foldl (fun s t => s.turn t) s

end Bond

end Nsq.Publisher
