import Nsq.Net.SocketAddress
import Nsq.Net.Percent

/-!
# URLs

A URL names a host and something on it: a scheme, perhaps a user, the host, perhaps a port, a path,
and perhaps a query and a fragment. All parts are kept in the form in which `Url.text` writes them.
URLs without a host are of no use here, and there are none.
-/

namespace Nsq

/-- The host of a URL. -/
inductive UrlHost where
  /-- A name. -/
  | name (text : String)
  /-- A number. -/
  | number (host : Host)
deriving DecidableEq, Repr

/-- The text of a host. -/
def UrlHost.text : UrlHost → String
  | .name s => s
  | .number (.v4 os) => Host.dotted os
  | .number (.v6 gs _) => "[" ++ Host.groupsText gs ++ "]"

/-- A URL. -/
structure Url where
  /-- The scheme, in small letters. -/
  scheme : String
  /-- The name of a user; it may be empty. -/
  user : String := ""
  /-- The password of the user; it may be empty. -/
  password : String := ""
  /-- The host. -/
  host : UrlHost
  /-- The port, unless it is the one of the scheme. -/
  port : Option Nat := none
  /-- The path. -/
  path : String := ""
  /-- What stands behind a question mark. -/
  query : Option String := none
  /-- What stands behind a number sign. -/
  fragment : Option String := none
deriving DecidableEq, Repr

/-- Why a text is no URL, or none with a host. -/
inductive UrlFault where
  /-- It begins with no scheme. -/
  | noScheme
  /-- It has no host. -/
  | noHost
  /-- Its host is no name of a host. -/
  | hostName
  /-- Its host has a character that no host has. -/
  | hostCharacter
  /-- Its host ends in a number, but is none of four parts. -/
  | hostV4
  /-- Its host opens a bracket, but is no number of eight groups. -/
  | hostV6
  /-- Its port is no number of a port. -/
  | port
deriving DecidableEq, Repr

/-- The name of a fault. -/
def UrlFault.name : UrlFault → String
  | .noScheme => "RelativeUrlWithoutBase"
  | .noHost => "EmptyHost"
  | .hostName => "IdnaError"
  | .hostCharacter => "InvalidDomainCharacter"
  | .hostV4 => "InvalidIpv4Address"
  | .hostV6 => "InvalidIpv6Address"
  | .port => "InvalidPort"

/-- The wording of a fault. -/
def UrlFault.message : UrlFault → String
  | .noScheme => "relative URL without a base"
  | .noHost => "empty host"
  | .hostName => "invalid international domain name"
  | .hostCharacter => "invalid domain character"
  | .hostV4 => "invalid IPv4 address"
  | .hostV6 => "invalid IPv6 address"
  | .port => "invalid port number"

namespace Url

/-- The schemes whose URLs have a common grammar, with their ports. Their slashes may be
backslashes, and their hosts are names of hosts. -/
def ports : List (String × Option Nat) :=
  [("http", some 80), ("https", some 443), ("ws", some 80), ("wss", some 443), ("ftp", some 21),
    ("file", none)]

/-- Whether a scheme belongs to the common ones. -/
def isCommon (scheme : String) : Bool := (ports.lookup scheme).isSome

/-- The port of a scheme. -/
def port? (scheme : String) : Option Nat := (ports.lookup scheme).join

/-- Host and port, as far as the port is given. -/
def authority (u : Url) : String :=
  u.host.text ++ match u.port with
    | some p => ":" ++ toString p
    | none => ""

/-- User and password, in front of the sign that ends them. -/
def credentials (u : Url) : String :=
  if u.password.isEmpty then if u.user.isEmpty then "" else u.user ++ "@"
  else u.user ++ ":" ++ u.password ++ "@"

/-- Path and query. -/
def target (u : Url) : String :=
  u.path ++ match u.query with
    | some q => "?" ++ q
    | none => ""

/-- The text of a URL. -/
def text (u : Url) : String :=
  u.scheme ++ "://" ++ u.credentials ++ u.authority ++ u.target ++ match u.fragment with
    | some f => "#" ++ f
    | none => ""

/-- Adds a field to the query. -/
def addField (name value : String) (u : Url) : Url :=
  let field := name ++ "=" ++ String.ofList (Percent.form value)
  { u with
    query := some (match u.query with
      | none | some "" => field
      | some q => q ++ "&" ++ field) }

end Url

end Nsq
