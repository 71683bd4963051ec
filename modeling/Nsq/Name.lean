/-!
# Names of topics and channels

A name is a run of letters, digits, points, underscores and hyphens, perhaps closed by the mark
`#ephemeral`; it has between one and sixty-four octets, the mark included. Topics and channels
follow the same rule.
-/

namespace Nsq.Name

/-- Whether a character may stand in the body of a name; all such characters are ASCII. -/
def isNameChar (c : Char) : Bool :=
  c == '.' || ('a' ≤ c && c ≤ 'z') || ('A' ≤ c && c ≤ 'Z') || ('0' ≤ c && c ≤ '9') || c == '_' ||
    c == '-'

/-- The mark of a name that the daemon forgets with its last client. -/
def ephemeralMark : List Char := "#ephemeral".toList

/-- Whether a text is a name: after its body comes nothing or the mark. -/
def isValid (name : String) : Bool :=
  let cs := name.toList
  let rest := cs.dropWhile isNameChar
  0 < name.utf8ByteSize && name.utf8ByteSize ≤ 64 && !(cs.takeWhile isNameChar).isEmpty &&
    (rest.isEmpty || rest == ephemeralMark)

/-- Whether a text names a topic. -/
def isValidTopic (name : String) : Bool := isValid name

/-- Whether a text names a channel. -/
def isValidChannel (name : String) : Bool := isValid name

end Nsq.Name
