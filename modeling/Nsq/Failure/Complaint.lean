import Nsq.Failure.Outline

/-!
# Complaints

A program that cannot do its work ends with a complaint: that it was called in a wrong way, that an
operation failed, or that it could not read its own input.
-/

namespace Nsq

/-- Why a program ends before its time. -/
inductive Complaint where
  /-- It was called in a wrong way; the text tells how it is called. -/
  | usage (text : String)
  /-- An operation failed. -/
  | failure (f : Failure)
  /-- Its own input could not be read. -/
  | input (f : IoFault)
deriving DecidableEq

namespace Complaint

/-- What a complaint is about, in outline. -/
def outline : Complaint → String
  | usage text =>
    Outline.fields "Custom" [("kind", IoKind.invalidInput.name), ("error", Text.quoted text)]
  | failure f => f.outline
  | input f => f.outline

/-- The line in which a program complains. -/
def line (c : Complaint) : String := "Error: " ++ c.outline

end Complaint

end Nsq
