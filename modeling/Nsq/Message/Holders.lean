import Nsq.Message.Answered

/-!
# Holders of a message

The copies of a message may be in the hands of several holders, each of which makes calls of its own
while the others do. A call looks at the state that the copies share, once and in a single action,
and only afterwards is the connection told what passed, if anything did; between the two any of the
others may take a turn. `Holders.turn` is one action of one holder, and `Holders.run` lets holders
take turns in any order.
-/

namespace Nsq

/-- A call on one of the copies of a message. -/
structure CopyCall where
  /-- The place of the copy among the copies. -/
  copy : Nat
  /-- The call. -/
  call : Call
deriving DecidableEq

/-- How far a holder has come with a call. -/
inductive Stage where
  /-- It makes none. -/
  | idle
  /-- It has begun the call, and has not looked at the state of the answers. -/
  | entered (c : CopyCall)
  /-- It has looked, and what passes of the call is on its way to the connection. -/
  | passing (c : CopyCall) (r : Request)
deriving DecidableEq

namespace Stage

/-- The call that is under way. -/
def current : Stage → Option CopyCall
  | .idle => none
  | .entered c => some c
  | .passing c _ => some c

end Stage

/-- A holder of some copies. -/
structure Holder where
  /-- The calls that have returned, in order. -/
  done : List CopyCall := []
  /-- How far it has come with the call that it makes. -/
  stage : Stage := .idle
  /-- The calls that it will make, in order. -/
  left : List CopyCall
deriving DecidableEq

/-- What a connection is told by a holder: the place of the holder among the holders, the place of
the call among its calls, and the request. -/
structure Receipt where
  /-- The place of the holder. -/
  holder : Nat
  /-- The place of the call. -/
  number : Nat
  /-- What passed of the call. -/
  request : Request
deriving DecidableEq

/-- The holders of a message, its copies, and what the connection was told. -/
structure Holders where
  /-- The copies. -/
  copies : Copies
  /-- The holders. -/
  each : List Holder
  /-- What the connection was told, in order. -/
  received : List Receipt := []
deriving DecidableEq

namespace Holders

/-- Holders that have made no call yet, with the calls that each of them will make. -/
def start (copies : Copies) (programs : List (List CopyCall)) : Holders :=
  { copies := copies, each := programs.map fun p => { left := p } }

/-- Changes the holder at `i`. -/
def put (i : Nat) (h : Holder) (g : Holders) : Holders :=
  { g with each := g.each.set i h }

/-- One action of the holder at `i`: it begins its next call, looks at the state of the answers, or
tells the connection what passed. A call of which nothing passes has returned once it has looked. -/
def turn (i : Nat) (g : Holders) : Holders :=
  match g.each[i]? with
  | none => g
  | some h =>
    match h.stage, h.left with
    | .idle, [] => g
    | .idle, c :: left => g.put i { h with stage := .entered c, left := left }
    | .entered c, _ =>
      let (passed, copies) := g.copies.call c.copy c.call
      let h := match passed with
        | none => { h with done := h.done ++ [c], stage := .idle }
        | some r => { h with stage := .passing c r }
      { g.put i h with copies := copies }
    | .passing c r, _ =>
      { g.put i { h with done := h.done ++ [c], stage := .idle } with
        received := g.received ++ [⟨i, h.done.length, r⟩] }

/-- Holders take turns, in the order in which their places are given. -/
def run (g : Holders) : List Nat → Holders
  | [] => g
  | i :: is => (g.turn i).run is

end Holders

end Nsq
