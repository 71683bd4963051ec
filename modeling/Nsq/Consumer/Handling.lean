import Nsq.Message.Answered

/-!
# Handling a message

A handler gets a message, may call for things on it, and returns, fails or panics. What its end
means for the message is decided here: a message that was attempted too often is given up without
reaching the handler, and otherwise the handler's end supplies the final answer that the handler
itself did not give, unless it asked for none to be supplied.
-/

namespace Nsq

/-- How a handler ends. -/
inductive Verdict where
  /-- It returns. -/
  | done
  /-- It fails, in these words. -/
  | failed (reason : String)
  /-- It panics, perhaps with a text. -/
  | panicked (text : Option String)
deriving DecidableEq, Repr

/-- The words of a panic. -/
def panicMessage : Option String → String
  | some text => "handler panicked: " ++ text
  | none => "handler panicked"

/-- Why a handler did not do its work. -/
def Verdict.failure : Verdict → Option String
  | done => none
  | failed reason => some reason
  | panicked text => some (panicMessage text)

/-- What a handler does with a message: it makes calls, and ends. -/
structure Handling where
  /-- The calls, in order. -/
  calls : List Call := []
  /-- How it ends. -/
  verdict : Verdict := .done
deriving DecidableEq

/-- Whether a message was attempted more often than is allowed. -/
def Message.isExhausted (m : Message) : Bool :=
  0 < m.maxAttempts && m.maxAttempts < m.attempts

/-- The final answer that is supplied when a handler ends. -/
def Verdict.answer (v : Verdict) : Answer :=
  match v.failure with
  | none => .finish
  | some _ => .requeue none true

/-- What passes of the final answer that is supplied when a handler ends, and the state after it. -/
def Answered.supply (s : Answered) (v : Verdict) : Option Request × Answered :=
  if s.manual then (none, s) else s.call (.answer v.answer)

/-- What passes while a handler has a message, its end included, and the state after it. -/
def Answered.handle (s : Answered) (h : Handling) : List Request × Answered :=
  let (passed, s) := s.calls h.calls
  let (last, s) := s.supply h.verdict
  (passed ++ last.toList, s)

end Nsq
