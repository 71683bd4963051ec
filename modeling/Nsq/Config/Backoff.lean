import Nsq.Duration.Basic

/-!
# How pauses grow

The pause of a backoff level doubles with each level, from a base. The jittered strategy draws it
evenly below that ceiling.
-/

namespace Nsq

/-- How the pause grows with the level. -/
inductive BackoffStrategy where
  /-- The base doubled once per level. -/
  | exponential
  /-- A draw below what the exponential strategy gives. -/
  | fullJitter
deriving DecidableEq, Repr

namespace BackoffStrategy

/-- Two to the power of a level, at most the greatest word of 32 bits. -/
def factor (level : Nat) : Nat :=
  if level < 32 then 2 ^ level else 2 ^ 32 - 1

/-- The base doubled once per level, or the longest duration. -/
def ceiling (base : Duration) (level : Nat) : Duration :=
  base.times (factor level)

/-- A drawn number brought below the nanoseconds of a ceiling, of which a word of 64 bits counts. -/
def below (ceiling : Duration) (draw : Nat) : Duration :=
  .saturating (draw % min ceiling.nanos (2 ^ 64 - 1))

/-- The pause of a level. Only the jittered strategy looks at the draw. -/
def pause (s : BackoffStrategy) (base : Duration) (level draw : Nat) : Duration :=
  match s with
  | exponential => ceiling base level
  | fullJitter =>
    if (ceiling base level).nanos = 0 then .zero else below (ceiling base level) draw

/-- Reads the name of a strategy; no name stands for the exponential one. -/
def ofName? (name : String) : Option BackoffStrategy :=
  if name = "" ∨ name = "exponential" then some exponential
  else if name = "full_jitter" then some fullJitter
  else none

end BackoffStrategy

end Nsq
