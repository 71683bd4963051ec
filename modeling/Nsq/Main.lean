import Nsq.Shell.Feed
import Nsq.Shell.Tail

/-!
# The programs

`nsq_tail` shows the messages of a topic, `to_nsq` publishes lines to one. Which of the two is meant
is said by the first argument.
-/

open Nsq

/-- Ends with a complaint, or in peace. -/
def conclude (complaint : Option Complaint) : IO UInt32 := do
  match complaint with
  | none => return 0
  | some c =>
    IO.eprintln c.line
    return 1

/-- Runs the program that the first argument names. -/
def main (args : List String) : IO UInt32 := do
  match args with
  | "nsq_tail" :: args => conclude (← Shell.tail args)
  | "to_nsq" :: args => conclude (← Shell.feed args)
  | _ => conclude (some (.usage "usage: nsq_tail ... | to_nsq ..."))
