import Nsq.Consumer.Credit

/-!
# The pace

A failed message makes the consumer slower: it takes all credit back and pauses, longer with every
level. After the pause it grants one message to one link, as a probe. Messages that are done, or go
back for other reasons, lower the level again, and at level zero every link gets its share back.
While a pause is under way no signal counts. A pause of no length is never under way, but something
will still wake the consumer from it (`Consumer.elapse`).

What is left to chance is drawn from a given sequence of numbers.
-/

namespace Nsq.Consumer

/-- Pauses; something will wake the consumer at the end, which may be at once. -/
def rest (d : Duration) (c : Consumer) : Consumer :=
  { c with pause := min d.nanos (2 ^ 64 - 1), armed := true }

/-- The level after a signal, and whether the signal counted. Slower than the longest pause is not
possible. -/
def levelAfter (s : Signal) (draw : Nat) (c : Consumer) : Nat × Bool :=
  match s with
  | .backoff =>
    if c.config.backoffPause (c.level + 1) draw ≤ c.config.durations .maxBackoffDuration then
      (c.level + 1, true)
    else (c.level, false)
  | .steady | .resume => if 0 < c.level then (c.level - 1, true) else (0, false)

/-- The pause of the level reached. -/
def pauseLength (draw : Nat) (c : Consumer) : Duration :=
  min (c.config.backoffPause c.level draw) (c.config.durations .maxBackoffDuration)

/-- Takes a signal about the pace. -/
def signal (chance : Nat → Nat) (s : Signal) (c : Consumer) : Consumer :=
  if c.inPause then c
  else
    let (level, counted) := c.levelAfter s (chance 0)
    let c := { c with level := level }
    if level = 0 then if counted then c.grantAll c.walk c.perLink else c
    else (c.grantAll c.walk 0).rest (c.pauseLength (chance 1))

/-- The pause after a probe that could not be made. -/
def probePause : Duration := .ofSeconds 1

/-- Ends a pause: one link is granted one message. -/
def resume (chance : Nat → Nat) (c : Consumer) : Consumer :=
  let c := { c with armed := false }
  if c.stopping then { c with pause := 0 }
  else
    match c.walk[chance 0 % c.live.length]? with
    | none => c.rest probePause
    | some i =>
      match c.updateRdy i 1 with
      | (.ok (), c) => { c with pause := 0 }
      | (.error _, c) => c.rest probePause

end Nsq.Consumer
