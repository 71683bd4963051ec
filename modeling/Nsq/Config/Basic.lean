import Nsq.Config.Option
import Nsq.Config.Value

/-!
# Configurations

A configuration gives every option a value. `Config.set` reads a value for an option by name and
checks its bounds; `Config.validate` checks all bounds and what several options together must
obey. Options of one sort share a table, so an assignment changes the entry of its option alone.
-/

namespace Nsq

/-- The values of all options. -/
structure Config where
  /-- The durations. -/
  durations : DurationOption → Duration
  /-- The whole numbers. -/
  counts : CountOption → Int
  /-- The flags. -/
  flags : FlagOption → Bool
  /-- The texts. -/
  texts : TextOption → String
  /-- The fraction of the poll interval that may pass before the first poll. -/
  jitter : Double
  /-- How the pause grows with the level of the backoff. -/
  strategy : BackoffStrategy
  /-- The secret, if there is one. -/
  authSecret : Option String

/-- Why a value was refused. -/
inductive ConfigFault where
  /-- There is no option of that name. -/
  | unknownOption (name : String)
  /-- The value cannot be read. -/
  | invalidValue (option : String) (reason : ValueFault)
  /-- The value is out of bounds; there may be no upper one. -/
  | outOfRange (option : String) (value least : ConfigValue) (greatest : Option ConfigValue)
  /-- Heartbeats come too seldom for the read timeout. -/
  | slowHeartbeat (interval timeout : Duration)
  /-- Two compressions are wanted. -/
  | twoCompressions
  /-- The faster compression is wanted, which does not exist here. -/
  | snappyUnsupported
  /-- Encryption is wanted, which does not exist here. -/
  | tlsUnsupported
deriving DecidableEq

/-- An upper bound as messages show it. -/
def boundShown : Option ConfigValue → String
  | some v => v.shown
  | none => "inf"

/-- The wording of a refusal. -/
def ConfigFault.message : ConfigFault → String
  | .unknownOption name => "unknown option " ++ Text.quoted name
  | .invalidValue option reason => "invalid value for " ++ option ++ ": " ++ reason.message
  | .outOfRange option value least greatest =>
    option ++ " " ++ value.shown ++ " out of range [" ++ least.shown ++ ", " ++
      boundShown greatest ++ "]"
  | .slowHeartbeat interval timeout =>
    "heartbeat_interval " ++ interval.text ++ " must be less than read_timeout " ++ timeout.text
  | .twoCompressions => "cannot enable both deflate and snappy compression"
  | .snappyUnsupported => "snappy compression is not supported"
  | .tlsUnsupported => "tls_v1 is not supported"

namespace Config

/-- The part of a host's name in front of its first point. -/
def shortName (hostname : String) : String :=
  String.ofList (hostname.toList.takeWhile (· != '.'))

/-- The values that hold before any assignment, on a host of the given name. -/
def initial (hostname : String) : Config where
  durations := DurationOption.initial
  counts := CountOption.initial
  flags _ := false
  texts
    | .clientId => shortName hostname
    | .hostname => hostname
    | .userAgent => "nsq-client/0.1.0"
  jitter := Double.ofRatio false 3 10
  strategy := .exponential
  authSecret := none

/-! ### Assignments without checks -/

/-- Assigns a duration. -/
def putDuration (c : Config) (o : DurationOption) (d : Duration) : Config :=
  { c with durations := fun k => if k = o then d else c.durations k }

/-- Assigns a whole number. -/
def putCount (c : Config) (o : CountOption) (i : Int) : Config :=
  { c with counts := fun k => if k = o then i else c.counts k }

/-- Assigns a flag. -/
def putFlag (c : Config) (o : FlagOption) (b : Bool) : Config :=
  { c with flags := fun k => if k = o then b else c.flags k }

/-- Assigns a text. -/
def putText (c : Config) (o : TextOption) (s : String) : Config :=
  { c with texts := fun k => if k = o then s else c.texts k }

/-! ### Bounds -/

/-- Refuses a duration out of bounds. -/
def checkDuration (o : DurationOption) (d : Duration) : Except ConfigFault Unit :=
  if o.admits d then .ok ()
  else
    .error (.outOfRange o.name (.duration d) (.duration o.bounds.1)
      (o.bounds.2.map ConfigValue.duration))

/-- Refuses a whole number out of bounds. -/
def checkCount (o : CountOption) (i : Int) : Except ConfigFault Unit :=
  if o.admits i then .ok ()
  else .error (.outOfRange o.name (.int i) (.int o.bounds.1) (some (.int o.bounds.2)))

/-- Refuses a jitter that is no fraction; `shown` is the value in the form it was handed over. -/
def checkJitter (d : Double) (shown : ConfigValue) : Except ConfigFault Unit :=
  if d.inUnitInterval then .ok ()
  else .error (.outOfRange ConfigOption.jitter.name shown (.int 0) (some (.int 1)))

/-! ### Assignments with checks -/

/-- Turns the reason why a value cannot be read into the refusal for an option. -/
def reading {α : Type} (o : ConfigOption) : Except ValueFault α → Except ConfigFault α
  | .ok a => .ok a
  | .error reason => .error (.invalidValue o.name reason)

/-- Reads a value for an option, checks it, and gives the assignment. The refusal depends on the
option and the value alone. -/
def assignment (o : ConfigOption) (v : ConfigValue) : Except ConfigFault (Config → Config) :=
  match o with
  | .duration k => do
    let d ← reading o v.toDuration
    checkDuration k d
    pure fun c => c.putDuration k d
  | .count k => do
    let i ← reading o v.toInt
    checkCount k i
    pure fun c => c.putCount k i
  | .jitter => do
    let d ← reading o v.toDouble
    checkJitter d v
    pure fun c => { c with jitter := d }
  | .strategy => do
    let s ← reading o v.toStrategy
    pure fun c => { c with strategy := s }
  | .flag k => do
    let b ← reading o v.toFlag
    pure fun c => c.putFlag k b
  | .text k => do
    let s ← reading o v.toText
    pure fun c => c.putText k s
  | .authSecret => do
    let s ← reading o v.toText
    pure fun c => { c with authSecret := some s }

/-- Sets an option by name. -/
def set (c : Config) (name : String) (v : ConfigValue) : Except ConfigFault Config :=
  match ConfigOption.ofName? name with
  | none => .error (.unknownOption name)
  | some o => (assignment o v).map (· c)

/-- Checks the bounds of every option. -/
def checkBounds (c : Config) : Except ConfigFault Unit := do
  DurationOption.all.forM fun o => checkDuration o (c.durations o)
  CountOption.all.forM fun o => checkCount o (c.counts o)
  checkJitter c.jitter (.double c.jitter)

/-- Checks what several options together must obey, and what is not supported. -/
def checkTogether (c : Config) : Except ConfigFault Unit :=
  let interval := c.durations .heartbeatInterval
  let timeout := c.durations .readTimeout
  if timeout ≤ interval then .error (.slowHeartbeat interval timeout)
  else if c.flags .deflate ∧ c.flags .snappy then .error .twoCompressions
  else if c.flags .snappy then .error .snappyUnsupported
  else if c.flags .tls then .error .tlsUnsupported
  else .ok ()

/-- Checks a configuration. -/
def validate (c : Config) : Except ConfigFault Unit := do
  c.checkBounds
  c.checkTogether

/-- The greatest frame accepted; zero for the default. -/
def maxFrame (c : Config) : Nat := (c.counts .maxMsgSize).toNat

/-- The pause of a backoff level. -/
def backoffPause (c : Config) (level draw : Nat) : Duration :=
  c.strategy.pause (c.durations .backoffMultiplier) level draw

end Config

end Nsq
