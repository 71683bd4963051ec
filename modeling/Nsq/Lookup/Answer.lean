import Nsq.Json.Record
import Nsq.Lookup.Address

/-!
# Answers of lookup services

A lookup service lists the channels of a topic and the daemons that hold it. The list comes as it
is, or, from older services, inside an envelope with a status.
-/

namespace Nsq.Lookup

/-- A daemon as a lookup service describes it. -/
structure Peer where
  /-- The address from which it registered. -/
  remoteAddress : String := ""
  /-- The name of its host. -/
  hostname : String := ""
  /-- The address at which it wants to be reached. -/
  broadcastAddress : String := ""
  /-- The port of the queue protocol. -/
  tcpPort : Nat := 0
  /-- The port of the web interface. -/
  httpPort : Nat := 0
  /-- The version of the daemon. -/
  version : String := ""
deriving DecidableEq, Repr

/-- The address at which a daemon speaks the queue protocol. -/
def Peer.address (p : Peer) : String :=
  joinHostPort p.broadcastAddress p.tcpPort

/-- Reads the description of a daemon. -/
def Peer.ofJson (j : Json) : Option Peer := do
  let fields ← j.fields
    ["remote_address", "hostname", "broadcast_address", "tcp_port", "http_port", "version"]
  match fields with
  | [remote, host, broadcast, tcp, http, version] =>
    pure
      { remoteAddress := ← Json.optional Json.asText "" remote
        hostname := ← Json.optional Json.asText "" host
        broadcastAddress := ← Json.optional Json.asText "" broadcast
        tcpPort := ← Json.optional Json.asUInt16 0 tcp
        httpPort := ← Json.optional Json.asUInt16 0 http
        version := ← Json.optional Json.asText "" version }
  | _ => none

/-- What a lookup service says of a topic. -/
structure Answer where
  /-- The channels of the topic. -/
  channels : List String := []
  /-- The daemons that hold it. -/
  producers : List Peer := []
deriving DecidableEq, Repr

/-- Reads what a lookup service says. -/
def Answer.ofJson (j : Json) : Option Answer := do
  match ← j.fields ["channels", "producers"] with
  | [channels, producers] =>
    pure
      { channels := ← Json.optional (Json.asList Json.asText) [] channels
        producers := ← Json.optional (Json.asList Peer.ofJson) [] producers }
  | _ => none

/-- An answer with a status. -/
structure Envelope where
  /-- The status; two hundred stands for success. -/
  status : Int
  /-- The status in words. -/
  statusText : String
  /-- The answer, if there is one. -/
  data : Option Answer
deriving DecidableEq, Repr

/-- Reads an envelope. Its status must be given; an object may leave the answer out, an array must
reach as far as the answer. -/
def Envelope.ofJson (j : Json) : Option Envelope := do
  match ← j.fields ["status_code", "status_txt", "data"] with
  | [some status, text, data] =>
    let data ← match j, data with
      | .array _, none => none
      | _, none => some none
      | _, some d => Json.asOption Answer.ofJson d
    pure
      { status := ← status.asInt64
        statusText := ← Json.optional Json.asText "" text
        data := data }
  | _ => none

/-- Why the body of an answer is refused. -/
inductive BodyFault where
  /-- It is not what JSON or the format asks for. -/
  | malformed
  /-- It has a status of no success. -/
  | status (code : Int) (text : String)
deriving DecidableEq, Repr

/-- Reads the body of an answer; `versioned` tells that it comes without an envelope. -/
def readBody (body : Octets) (versioned : Bool) : Except BodyFault Answer :=
  match Json.parse body with
  | none => .error .malformed
  | some j =>
    if versioned then
      match Answer.ofJson j with
      | some a => .ok a
      | none => .error .malformed
    else
      match Envelope.ofJson j with
      | none => .error .malformed
      | some e =>
        if e.status = 200 then .ok (e.data.getD {})
        else .error (.status e.status e.statusText)

end Nsq.Lookup
