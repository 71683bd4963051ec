import Nsq.Lookup.Answer
import Nsq.Net.Url.Reader

/-!
# Querying a lookup service

A query asks the endpoint of a service for one topic, which stands form-encoded in the query part
of the URL. An endpoint that is no URL, or one of a scheme that is not spoken, cannot be asked at
all. Else what comes back is a failure to connect, a status, or a body in one of two formats; the
header of the reply tells which.
-/

namespace Nsq.Lookup

/-- What a query asks for. -/
structure Request where
  /-- The endpoint, without the topic. -/
  endpoint : String
  /-- The URL, with the topic. -/
  url : Url
  /-- The format that is understood. -/
  accept : String := "application/vnd.nsq; version=1.0"
deriving DecidableEq, Repr

/-- The line that opens a request. -/
def Request.line (r : Request) : String := "GET " ++ r.url.target ++ " HTTP/1.1"

/-- Host and port to connect to. -/
def Request.peer (r : Request) : String :=
  r.url.host.text ++ ":" ++ toString (r.url.port.getD ((Url.port? r.url.scheme).getD 80))

/-- What a service replies. -/
structure Reply where
  /-- The status of the exchange. -/
  status : Nat := 200
  /-- The header that names the format of the body. -/
  contentType : Option String := none
  /-- The body. -/
  body : Octets
deriving DecidableEq, Repr

/-- The format of a body without an envelope. -/
def versionedFormat : String := "nsq; version=1.0"

/-- Why a service gives no reply. -/
inductive TransportFault where
  /-- No route leads to it. -/
  | unreachable
  /-- Nobody listens. -/
  | refused
  /-- It did not answer in time. -/
  | timedOut
  /-- What it sent makes no sense. -/
  | unreadable
  /-- The name of its host is not known. -/
  | unknownHost (peer : String)
  /-- It wants to be asked over an encrypted connection, which does not exist here. -/
  | encrypted
deriving DecidableEq, Repr

/-- The wording of a fault. -/
def TransportFault.message : TransportFault → String
  | .unreachable =>
    "Connection Failed: Connect error: Network is unreachable (os error 101)"
  | .refused => "Connection Failed: Connect error: Connection refused (os error 111)"
  | .timedOut => "Connection Failed: Connect error: connection timed out"
  | .unreadable => "Network Error: the reply makes no sense"
  | .unknownHost peer =>
    "Dns Failed: resolve dns name '" ++ peer ++ "': " ++ IoFault.unknownHost.message
  | .encrypted => "Unknown Scheme: encrypted connections are not supported"

/-- Why a query has no answer. -/
inductive QueryFault where
  /-- The endpoint is no URL of a host. -/
  | url (endpoint : String) (fault : UrlFault)
  /-- The scheme of the URL is not spoken. -/
  | scheme (request : Request)
  /-- There was no reply. -/
  | transport (request : Request) (fault : TransportFault)
  /-- The status of the exchange is one of failure. -/
  | failed (request : Request) (status : Nat)
  /-- The body is refused. -/
  | body (fault : BodyFault)
deriving DecidableEq, Repr

/-- The query of a service for a topic. -/
def request (addr topic : String) : Except QueryFault Request :=
  match Url.read (endpoint addr) with
  | .error fault => .error (.url (endpoint addr) fault)
  | .ok url =>
    let r : Request := { endpoint := endpoint addr, url := url.addField "topic" topic }
    if schemes.contains url.scheme.toList then .ok r else .error (.scheme r)

/-- Reads the reply to a query. -/
def understand (r : Request) : Except TransportFault Reply → Except QueryFault Answer
  | .error fault => .error (.transport r fault)
  | .ok reply =>
    if 400 ≤ reply.status then .error (.failed r reply.status)
    else
      let body := Octets.ofString reply.body.lossyText
      match readBody body (reply.contentType == some versionedFormat) with
      | .ok a => .ok a
      | .error fault => .error (.body fault)

/-- Asks a service for a topic. -/
def query (addr topic : String) (ask : Request → Except TransportFault Reply) :
    Except QueryFault Answer := do
  let r ← request addr topic
  understand r (ask r)

end Nsq.Lookup
