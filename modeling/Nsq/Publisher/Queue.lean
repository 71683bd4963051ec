import Nsq.Failure
import Nsq.Command.Basic
import Nsq.Frame.Basic

/-!
# Transactions

The daemon answers publishing commands in the order in which it receives them, so the oldest
transaction without an outcome owns the next answer. A `Queue` holds those transactions;
`Queue.settle` gives an answer to the oldest and `Queue.abandon` gives up on all.
-/

namespace Nsq.Publisher

variable {Tag : Type}

/-- A publishing command on its way, with what its owner wants back beside the outcome. -/
structure Transaction (Tag : Type) where
  /-- The command. -/
  command : Command
  /-- What goes back to the owner. -/
  tag : Option Tag
deriving DecidableEq

/-- How a transaction ended. -/
structure Outcome (Tag : Type) where
  /-- Why it failed, unless the daemon took the message. -/
  failure : Option Failure
  /-- What its owner gave. -/
  tag : Option Tag
deriving DecidableEq

/-- Ends a transaction. -/
def Transaction.finish (failure : Option Failure) (t : Transaction Tag) : Outcome Tag :=
  ⟨failure, t.tag⟩

/-- The outcome that an answer stands for: the daemon refused, or all is well. -/
def verdict (kind : FrameKind) (data : Octets) : Option Failure :=
  if kind = .error then some (.protocol data.lossyText) else none

/-- The transactions without an outcome, the oldest first. -/
abbrev Queue (Tag : Type) := List (Transaction Tag)

namespace Queue

/-- Appends a transaction. -/
def push (t : Transaction Tag) (q : Queue Tag) : Queue Tag := q ++ [t]

/-- Gives an answer to the oldest transaction. An answer that nobody waits for is dropped. -/
def settle (kind : FrameKind) (data : Octets) : Queue Tag → Option (Outcome Tag) × Queue Tag
  | [] => (none, [])
  | t :: q => (some (t.finish (verdict kind data)), q)

/-- Gives up on all transactions. -/
def abandon (q : Queue Tag) : List (Outcome Tag) :=
  q.map (Transaction.finish (some .notConnected))

end Queue

end Nsq.Publisher
