import Nsq.Config.Basic
import Nsq.Json.Writer
import Nsq.Command.Basic
import Nsq.Number.Word

/-!
# Settings of a session

A client opens a session by naming itself and what it wants: which features, which times, how much
the daemon may hold back. `Settings.ofConfig` takes all of it from a configuration; times travel as
whole milliseconds in signed words of 64 bits.
-/

namespace Nsq

/-- What a client says of itself when it opens a session. -/
structure Settings where
  /-- The name of the client. -/
  clientId : String
  /-- The name of its host. -/
  hostname : String
  /-- The name and version of the program. -/
  userAgent : String
  /-- The name of the client, as older daemons know it. -/
  shortId : String
  /-- The name of its host, as older daemons know it. -/
  longId : String
  /-- Whether the session shall be encrypted. -/
  tls : Bool
  /-- Whether the session shall be compressed. -/
  deflate : Bool
  /-- How hard the daemon shall compress. -/
  deflateLevel : Int
  /-- Whether the session shall be compressed by the faster method. -/
  snappy : Bool
  /-- Whether the daemon shall answer with its own settings. -/
  featureNegotiation : Bool
  /-- Milliseconds between two heartbeats, or minus one for none. -/
  heartbeatInterval : Int
  /-- The percentage of messages wanted; zero for all. -/
  sampleRate : Int
  /-- How many octets the daemon may hold back. -/
  outputBufferSize : Int
  /-- How many milliseconds it may hold them back. -/
  outputBufferTimeout : Int
  /-- How many milliseconds it waits for the answer to a message; zero for its default. -/
  msgTimeout : Int
deriving DecidableEq, Repr

namespace Settings

/-- A duration in whole milliseconds, as a signed word. -/
def millisWord (d : Duration) : Int := word64 d.millis

/-- The settings that a configuration asks for. -/
def ofConfig (c : Config) : Settings where
  clientId := c.texts .clientId
  hostname := c.texts .hostname
  userAgent := c.texts .userAgent
  shortId := c.texts .clientId
  longId := c.texts .hostname
  tls := c.flags .tls
  deflate := c.flags .deflate
  deflateLevel := c.counts .deflateLevel
  snappy := c.flags .snappy
  featureNegotiation := true
  heartbeatInterval :=
    if c.durations .heartbeatInterval = .zero then -1
    else millisWord (c.durations .heartbeatInterval)
  sampleRate := c.counts .sampleRate
  outputBufferSize := c.counts .outputBufferSize
  outputBufferTimeout := millisWord (c.durations .outputBufferTimeout)
  msgTimeout := millisWord (c.durations .msgTimeout)

/-- The members of the object that carries the settings. -/
def members (s : Settings) : List (String × Json.Scalar) :=
  [ ("client_id", .text s.clientId), ("hostname", .text s.hostname),
    ("user_agent", .text s.userAgent), ("short_id", .text s.shortId),
    ("long_id", .text s.longId), ("tls_v1", .flag s.tls), ("deflate", .flag s.deflate),
    ("deflate_level", .int s.deflateLevel), ("snappy", .flag s.snappy),
    ("feature_negotiation", .flag s.featureNegotiation),
    ("heartbeat_interval", .int s.heartbeatInterval), ("sample_rate", .int s.sampleRate),
    ("output_buffer_size", .int s.outputBufferSize),
    ("output_buffer_timeout", .int s.outputBufferTimeout), ("msg_timeout", .int s.msgTimeout) ]

/-- The settings as text. -/
def text (s : Settings) : String := Json.writeObject s.members

/-- The command that opens a session. -/
def command (s : Settings) : Command := .identify (Octets.ofString s.text)

end Settings

end Nsq
