import Nsq.Json.Record

/-!
# What the daemon says about a session

The daemon answers the settings of a client with the terms that it grants, and a secret with the
identity that it stands for. Both come as JSON records, in which every field may be left out.
-/

namespace Nsq

/-- The credit per connection that holds where the daemon names none. -/
def defaultMaxRdy : Int := 2500

/-- The terms of a session. -/
structure Terms where
  /-- The greatest credit that the daemon takes. -/
  maxRdyCount : Int := defaultMaxRdy
  /-- The version of the daemon. -/
  version : String := ""
  /-- The longest time in milliseconds it waits for the answer to a message. -/
  maxMsgTimeout : Int := 0
  /-- The time in milliseconds it waits. -/
  msgTimeout : Int := 0
  /-- Whether the session is encrypted. -/
  tls : Bool := false
  /-- Whether the session is compressed. -/
  deflate : Bool := false
  /-- How hard the daemon compresses. -/
  deflateLevel : Int := 0
  /-- How hard it would compress at most. -/
  maxDeflateLevel : Int := 0
  /-- Whether the session is compressed by the faster method. -/
  snappy : Bool := false
  /-- The percentage of messages sent. -/
  sampleRate : Int := 0
  /-- Whether the daemon asks for a secret. -/
  authRequired : Bool := false
  /-- How many octets the daemon holds back. -/
  outputBufferSize : Int := 0
  /-- How many milliseconds it holds them back. -/
  outputBufferTimeout : Int := 0
deriving DecidableEq, Repr

namespace Terms

/-- The names of the fields. -/
def names : List String :=
  ["max_rdy_count", "version", "max_msg_timeout", "msg_timeout", "tls_v1", "deflate",
    "deflate_level", "max_deflate_level", "snappy", "sample_rate", "auth_required",
    "output_buffer_size", "output_buffer_timeout"]

/-- Reads terms. -/
def ofJson (j : Json) : Option Terms := do
  match ← j.fields names with
  | [maxRdyCount, version, maxMsgTimeout, msgTimeout, tls, deflate, deflateLevel, maxDeflateLevel,
      snappy, sampleRate, authRequired, outputBufferSize, outputBufferTimeout] =>
    pure
      { maxRdyCount := ← Json.optional Json.asInt64 defaultMaxRdy maxRdyCount
        version := ← Json.optional Json.asText "" version
        maxMsgTimeout := ← Json.optional Json.asInt64 0 maxMsgTimeout
        msgTimeout := ← Json.optional Json.asInt64 0 msgTimeout
        tls := ← Json.optional Json.asBool false tls
        deflate := ← Json.optional Json.asBool false deflate
        deflateLevel := ← Json.optional Json.asInt32 0 deflateLevel
        maxDeflateLevel := ← Json.optional Json.asInt32 0 maxDeflateLevel
        snappy := ← Json.optional Json.asBool false snappy
        sampleRate := ← Json.optional Json.asInt32 0 sampleRate
        authRequired := ← Json.optional Json.asBool false authRequired
        outputBufferSize := ← Json.optional Json.asInt64 0 outputBufferSize
        outputBufferTimeout := ← Json.optional Json.asInt64 0 outputBufferTimeout }
  | _ => none

/-- Reads the octets of terms. -/
def ofOctets (b : Octets) : Option Terms := (Json.parse b).bind ofJson

end Terms

/-- The greatest credit under the terms of a session, if the daemon has granted any. -/
def Session.maxRdyOf : Option Terms → Int
  | some t => t.maxRdyCount
  | none => defaultMaxRdy

/-- The identity that a secret stands for. -/
structure Grant where
  /-- Who the client is. -/
  identity : String := ""
  /-- Where more is said of it. -/
  identityUrl : String := ""
  /-- How many permissions it has. -/
  permissionCount : Int := 0
deriving DecidableEq, Repr

namespace Grant

/-- Reads a grant. -/
def ofJson (j : Json) : Option Grant := do
  match ← j.fields ["identity", "identity_url", "permission_count"] with
  | [identity, identityUrl, permissionCount] =>
    pure
      { identity := ← Json.optional Json.asText "" identity
        identityUrl := ← Json.optional Json.asText "" identityUrl
        permissionCount := ← Json.optional Json.asInt64 0 permissionCount }
  | _ => none

/-- Reads the octets of a grant. -/
def ofOctets (b : Octets) : Option Grant := (Json.parse b).bind ofJson

end Grant

end Nsq
