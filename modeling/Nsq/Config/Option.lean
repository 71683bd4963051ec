import Nsq.Duration.Basic
import Nsq.Number.Literal

/-!
# Options

The options of a configuration, sorted by what they hold: durations, counts, flags and texts, and
three that are alone in their sort. Each has a name; durations and counts have bounds.
-/

namespace Nsq

/-- The options that hold a duration. -/
inductive DurationOption where
  /-- How long dialing may take; zero for no bound. -/
  | dialTimeout
  /-- How long one read may take; it must exceed the heartbeat interval. -/
  | readTimeout
  /-- How long one write may take. -/
  | writeTimeout
  /-- The pause between two queries of the lookup services. -/
  | lookupPollInterval
  /-- How long one query of a lookup service may take; zero for no bound. -/
  | lookupPollTimeout
  /-- The longest delay of a requeued message. -/
  | maxRequeueDelay
  /-- The delay of a message requeued at its first attempt. -/
  | defaultRequeueDelay
  /-- The longest pause of the backoff. -/
  | maxBackoffDuration
  /-- The pause at level zero of the backoff. -/
  | backoffMultiplier
  /-- How long a connection may hold credit without receiving a message. -/
  | lowRdyIdleTimeout
  /-- The pause between two checks of how credit is spread. -/
  | rdyRedistributeInterval
  /-- The pause between two heartbeats; zero for none. -/
  | heartbeatInterval
  /-- How long the daemon may hold back what it sends. -/
  | outputBufferTimeout
  /-- How long the daemon waits for the answer to a message; zero for its default. -/
  | msgTimeout
deriving DecidableEq, Repr

namespace DurationOption

/-- All of them, in the order in which they are checked. -/
def all : List DurationOption :=
  [dialTimeout, readTimeout, writeTimeout, lookupPollInterval, lookupPollTimeout, maxRequeueDelay,
    defaultRequeueDelay, maxBackoffDuration, backoffMultiplier, lowRdyIdleTimeout,
    rdyRedistributeInterval, heartbeatInterval, outputBufferTimeout, msgTimeout]

/-- The name of an option. -/
def name : DurationOption → String
  | dialTimeout => "dial_timeout"
  | readTimeout => "read_timeout"
  | writeTimeout => "write_timeout"
  | lookupPollInterval => "lookupd_poll_interval"
  | lookupPollTimeout => "lookupd_poll_timeout"
  | maxRequeueDelay => "max_requeue_delay"
  | defaultRequeueDelay => "default_requeue_delay"
  | maxBackoffDuration => "max_backoff_duration"
  | backoffMultiplier => "backoff_multiplier"
  | lowRdyIdleTimeout => "low_rdy_idle_timeout"
  | rdyRedistributeInterval => "rdy_redistribute_interval"
  | heartbeatInterval => "heartbeat_interval"
  | outputBufferTimeout => "output_buffer_timeout"
  | msgTimeout => "msg_timeout"

/-- The least value and, where there is one, the greatest. -/
def bounds : DurationOption → Duration × Option Duration
  | dialTimeout | lookupPollTimeout | heartbeatInterval | outputBufferTimeout | msgTimeout =>
    (.zero, none)
  | readTimeout | writeTimeout => (.ofMillis 100, some (.ofSeconds 300))
  | lookupPollInterval => (.ofMillis 10, some (.ofSeconds 300))
  | maxRequeueDelay | defaultRequeueDelay | maxBackoffDuration | backoffMultiplier =>
    (.zero, some (.ofSeconds 3600))
  | lowRdyIdleTimeout => (.ofSeconds 1, some (.ofSeconds 300))
  | rdyRedistributeInterval => (.ofMillis 1, some (.ofSeconds 5))

/-- Whether a value is within the bounds. -/
def admits (o : DurationOption) (d : Duration) : Bool :=
  o.bounds.1 ≤ d && o.bounds.2.all (d ≤ ·)

/-- The value of an option that was not set. -/
def initial : DurationOption → Duration
  | dialTimeout | writeTimeout | backoffMultiplier => .ofSeconds 1
  | readTimeout | lookupPollInterval | lookupPollTimeout => .ofSeconds 60
  | maxRequeueDelay => .ofSeconds 900
  | defaultRequeueDelay => .ofSeconds 90
  | maxBackoffDuration => .ofSeconds 120
  | lowRdyIdleTimeout => .ofSeconds 10
  | rdyRedistributeInterval => .ofSeconds 5
  | heartbeatInterval => .ofSeconds 30
  | outputBufferTimeout => .ofMillis 250
  | msgTimeout => .zero

end DurationOption

/-- The options that hold a whole number. -/
inductive CountOption where
  /-- How often a message may be attempted; zero for no bound. -/
  | maxAttempts
  /-- The percentage of messages wanted; zero for all. -/
  | sampleRate
  /-- How hard the daemon compresses. -/
  | deflateLevel
  /-- How many octets the daemon may hold back. -/
  | outputBufferSize
  /-- How many messages may be in flight over all connections. -/
  | maxInFlight
  /-- The largest frame accepted; zero for the default. -/
  | maxMsgSize
deriving DecidableEq, Repr

namespace CountOption

/-- All of them, in the order in which they are checked. -/
def all : List CountOption :=
  [maxAttempts, sampleRate, deflateLevel, outputBufferSize, maxInFlight, maxMsgSize]

/-- The name of an option. -/
def name : CountOption → String
  | maxAttempts => "max_attempts"
  | sampleRate => "sample_rate"
  | deflateLevel => "deflate_level"
  | outputBufferSize => "output_buffer_size"
  | maxInFlight => "max_in_flight"
  | maxMsgSize => "max_msg_size"

/-- The least and the greatest value. -/
def bounds : CountOption → Int × Int
  | maxAttempts => (0, 65535)
  | sampleRate => (0, 99)
  | deflateLevel => (1, 9)
  | outputBufferSize => (-1, maxInt64)
  | maxInFlight => (0, maxInt64)
  | maxMsgSize => (0, 4294967295)

/-- Whether a value is within the bounds. -/
def admits (o : CountOption) (i : Int) : Bool :=
  o.bounds.1 ≤ i && i ≤ o.bounds.2

/-- The value of an option that was not set. -/
def initial : CountOption → Int
  | maxAttempts => 5
  | sampleRate => 0
  | deflateLevel => 6
  | outputBufferSize => 16384
  | maxInFlight => 1
  | maxMsgSize => 0

end CountOption

/-- The options that are on or off. -/
inductive FlagOption where
  /-- Whether idle connections give their credit to active ones. -/
  | rdyRedistributeOnIdle
  /-- Whether the connection is encrypted. -/
  | tls
  /-- Whether the connection is compressed. -/
  | deflate
  /-- Whether the connection is compressed by the faster method. -/
  | snappy
deriving DecidableEq, Repr

/-- All flags. -/
def FlagOption.all : List FlagOption := [rdyRedistributeOnIdle, tls, deflate, snappy]

/-- The name of an option. -/
def FlagOption.name : FlagOption → String
  | rdyRedistributeOnIdle => "rdy_redistribute_on_idle"
  | tls => "tls_v1"
  | deflate => "deflate"
  | snappy => "snappy"

/-- The options that hold a text. -/
inductive TextOption where
  /-- The short name of the client. -/
  | clientId
  /-- The name of the host. -/
  | hostname
  /-- The name and version of the program. -/
  | userAgent
deriving DecidableEq, Repr

/-- All texts. -/
def TextOption.all : List TextOption := [clientId, hostname, userAgent]

/-- The name of an option. -/
def TextOption.name : TextOption → String
  | clientId => "client_id"
  | hostname => "hostname"
  | userAgent => "user_agent"

/-- An option of any sort. -/
inductive ConfigOption where
  /-- One that holds a duration. -/
  | duration (o : DurationOption)
  /-- One that holds a whole number. -/
  | count (o : CountOption)
  /-- The part of the poll interval that may pass before the first poll, as a fraction. -/
  | jitter
  /-- How the pause grows with the level of the backoff. -/
  | strategy
  /-- One that is on or off. -/
  | flag (o : FlagOption)
  /-- One that holds a text. -/
  | text (o : TextOption)
  /-- The secret presented to daemons that ask for one. -/
  | authSecret
deriving DecidableEq, Repr

namespace ConfigOption

/-- Every option. -/
def all : List ConfigOption :=
  DurationOption.all.map duration ++ CountOption.all.map count ++ [jitter, strategy] ++
    FlagOption.all.map flag ++ TextOption.all.map text ++ [authSecret]

/-- The name of an option. -/
def name : ConfigOption → String
  | duration o => o.name
  | count o => o.name
  | jitter => "lookupd_poll_jitter"
  | strategy => "backoff_strategy"
  | flag o => o.name
  | text o => o.name
  | authSecret => "auth_secret"

/-- The option of a name. -/
def ofName? (name : String) : Option ConfigOption :=
  all.find? fun o => o.name == name

end ConfigOption

end Nsq
