/-!
# Cutting texts

A text is cut at every occurrence of a separator; the pieces between them may be empty, so there is
always one more piece than there are cuts. The same holds of octets.
-/

namespace Nsq.Text

variable {α : Type} [DecidableEq α]

/-- Cuts a run at each occurrence of `sep`. -/
def splitAll (sep : α) : List α → List (List α)
  | [] => [[]]
  | c :: cs =>
    if c = sep then [] :: splitAll sep cs
    else
      match splitAll sep cs with
      | p :: ps => (c :: p) :: ps
      | [] => [[c]]

end Nsq.Text
