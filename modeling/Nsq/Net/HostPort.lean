/-!
# Hosts and ports

A host and a port are joined by a colon. A host that has colons itself goes between brackets, and a
port is found behind the last colon.
-/

namespace Nsq

/-- Joins a host and a port; a host with colons goes between brackets unless one opens it. -/
def joinHostPort (host : String) (port : Nat) : String :=
  let cs := host.toList
  if cs.contains ':' && cs.head? != some '[' then "[" ++ host ++ "]:" ++ toString port
  else host ++ ":" ++ toString port

/-- Cuts a text at its last colon. -/
def splitPort? : List Char → Option (List Char × List Char)
  | [] => none
  | c :: cs =>
    match splitPort? cs with
    | some (host, port) => some (c :: host, port)
    | none => if c = ':' then some ([], cs) else none

/-- The greatest number of a port. -/
def maxPort : Int := 65535

end Nsq
