import Nsq.Number.Literal
import Nsq.Net.HostPort
import Nsq.Text.Quoted

/-!
# Addresses of lookup services

A lookup service is given as `host:port` or as a URL with the scheme `http` or `https`.
`Lookup.checkAddress` tells which texts are addresses and `Lookup.endpoint` completes an address to
the URL that is queried: the scheme `http` and the path `/lookup` are supplied where they are
missing.
-/

namespace Nsq.Lookup

/-- Why a text is no address. -/
inductive AddressFault where
  | missingScheme | wrongScheme | missingHost | missingPort | wrongPort
deriving DecidableEq, Repr

/-- The wording of a fault. -/
def AddressFault.message : AddressFault → String
  | .missingScheme => "missing scheme"
  | .wrongScheme => "scheme must be http or https"
  | .missingHost => "missing host"
  | .missingPort => "missing port"
  | .wrongPort => "invalid port"

/-- Cuts a text at the first `://`. -/
def splitScheme? : List Char → Option (List Char × List Char)
  | [] => none
  | ':' :: '/' :: '/' :: rest => some ([], rest)
  | c :: cs => (splitScheme? cs).map fun (scheme, rest) => (c :: scheme, rest)

/-- The schemes that can be queried. -/
def schemes : List (List Char) := ["http".toList, "https".toList]

/-- Refuses a text that is no address. -/
def checkAddress (addr : String) : Except AddressFault Unit :=
  let cs := addr.toList
  if cs.contains '/' then
    match splitScheme? cs with
    | none => .error .missingScheme
    | some (scheme, rest) =>
      if scheme ∉ schemes then .error .wrongScheme
      else if (rest.takeWhile (· != '/')).isEmpty then .error .missingHost
      else .ok ()
  else
    match splitPort? cs with
    | none => .error .missingPort
    | some (host, port) =>
      if host.isEmpty then .error .missingHost
      else
        match readInt 0 maxPort port with
        | .ok _ => .ok ()
        | .error _ => .error .wrongPort

/-- What follows the scheme of a URL; all of it where there is none. -/
def behindScheme (url : List Char) : List Char :=
  match splitScheme? url with
  | some (_, rest) => rest
  | none => url

/-- The URL that is queried, without its query. -/
def endpoint (addr : String) : String :=
  let cs := addr.toList
  let url := if cs.contains '/' then cs else "http://".toList ++ cs
  let path := (behindScheme url).dropWhile (· != '/')
  if path = [] then String.ofList (url ++ "/lookup".toList)
  else if path = ['/'] then String.ofList (url ++ "lookup".toList)
  else String.ofList url

end Nsq.Lookup
