import Nsq.Consumer.Pace

/-!
# Spreading credit anew

From time to time a consumer looks whether its credit lies where it is of use: when there are more
links than the budget has messages, when it probes with one of several links, or when the idle
policy finds credit on an idle link or none on an active one. Then idle links give their credit up,
and it goes to links drawn at random, or under the idle policy in even parts to the active ones.
-/

namespace Nsq.Consumer

/-- Whether a link is idle. -/
def isIdle (i : Nat) (c : Consumer) : Bool := c.links[i]?.any Link.idle

/-- The credit of a link. -/
def rdyOf (i : Nat) (c : Consumer) : Int := ((c.conn? i).map Connection.rdy).getD 0

/-- Whether credit lies on idle links or is missing on active ones. -/
def isUnbalanced (c : Consumer) : Bool :=
  c.walk.any fun i => if c.isIdle i then 0 < c.rdyOf i else c.rdyOf i = 0

/-- Whether the idle policy is to be followed. -/
def spreadsOnIdle (c : Consumer) : Bool :=
  c.config.flags .rdyRedistributeOnIdle && !c.inBackoff

/-- Whether there is a reason to spread the credit anew. -/
def wantsRespread (c : Consumer) : Bool :=
  c.maxInFlight < c.live.length || (c.inBackoff && 1 < c.live.length) ||
    (c.spreadsOnIdle && 1 < c.live.length && c.isUnbalanced)

/-- Takes the credit of idle links back. -/
def reclaim (links : List Nat) (c : Consumer) : Consumer :=
  links.foldl (fun c i => if 0 < c.rdyOf i then c.grant i 0 else c) c

/-- Grants one message each to links drawn at random, at most `n` of them. -/
def scatter (chance : Nat → Nat) : (n : Nat) → List Nat → Consumer → Consumer
  | 0, _, c => c
  | n + 1, links, c =>
    let k := chance n % links.length
    match links[k]? with
    | none => c
    | some i => scatter chance n (links.eraseIdx k) (c.grant i 1)

/-- Grants one message each to links drawn at random, as far as a budget goes. -/
def scatterUpTo (chance : Nat → Nat) (budget : Int) (links : List Nat) (c : Consumer) : Consumer :=
  scatter chance (word64 (c.spare budget)).toNat links (c.check .subtract (c.spare budget))

/-- Puts a link in front of those that hold no more credit. -/
def insertByRdy (c : Consumer) (i : Nat) : List Nat → List Nat
  | [] => [i]
  | j :: js => if c.rdyOf j ≤ c.rdyOf i then i :: j :: js else j :: insertByRdy c i js

/-- Sorts links by their credit, the greatest first. -/
def sortByRdy (c : Consumer) (links : List Nat) : List Nat :=
  links.foldr (insertByRdy c) []

/-- Grants the same credit to links, first to those that hold more and then to those that hold
less, so that the former make room for the latter. -/
def evenOut (links : List Nat) (share : Int) (c : Consumer) : Consumer :=
  let sorted := c.sortByRdy links
  let c := (sorted.filter fun i => share < c.rdyOf i).foldl (fun c i => c.grant i share) c
  (sorted.filter fun i => c.rdyOf i < share).foldl (fun c i => c.grant i share) c

/-- The even part of the budget for each of several links. -/
def evenShare (maxInFlight : Int) (links : Nat) : Int := max (maxInFlight.tdiv links) 1

/-- Gives the budget to the active links in even parts, and what is left to idle ones. -/
def spreadToActive (chance : Nat → Nat) (active idle : List Nat) (c : Consumer) : Consumer :=
  let share := evenShare c.maxInFlight active.length
  let c := ({ c with share := share }.reclaim idle).evenOut active share
  scatterUpTo chance c.maxInFlight idle c

/-- Takes the credit of idle links back and gives what is left of the budget to links drawn at
random; at a reduced pace the budget is one message. -/
def spreadToAny (chance : Nat → Nat) (active idle : List Nat) (c : Consumer) : Consumer :=
  let c := { c with share := 0 }.reclaim idle
  scatterUpTo chance (if c.inBackoff then 1 else c.maxInFlight) (active ++ idle) c

/-- Spreads the credit anew if there is a reason. -/
def redistribute (chance : Nat → Nat) (c : Consumer) : Consumer :=
  if c.inPause || c.live.isEmpty then c
  else if c.respread || c.wantsRespread then
    let c := { c with respread := false }
    let active := c.walk.filter fun i => !c.isIdle i
    let idle := c.walk.filter fun i => c.isIdle i
    if c.spreadsOnIdle && !active.isEmpty then c.spreadToActive chance active idle
    else c.spreadToAny chance active idle
  else c

end Nsq.Consumer
