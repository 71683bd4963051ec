import Nsq.Config.Basic
import Nsq.Fault
import Nsq.Lookup.Query

/-!
# Failures of operations

What can go wrong in an operation of a consumer or a publisher. `Failure.message` words each cause.
Where a reply cannot be read as JSON, the wording says so and stops there.
-/

namespace Nsq

/-- Why a session could not be opened, or a secret was turned down. -/
inductive Refusal where
  /-- Octets could not be exchanged. -/
  | io (fault : IoFault)
  /-- The daemon refused, in these words. -/
  | refused (text : String)
  /-- The settings of the daemon cannot be read. -/
  | malformedTerms
  /-- The verdict on the secret cannot be read. -/
  | malformedGrant
  /-- The daemon asks for a secret, and there is none. -/
  | secretRequired
  /-- Octets could not be exchanged after the switch to compression. -/
  | upgradeFault (fault : IoFault)
  /-- The daemon did not confirm the switch to compression, but said this. -/
  | upgradeRefused (text : String)
deriving DecidableEq, Repr

/-- The wording of a refusal. -/
def Refusal.message : Refusal → String
  | .io fault => fault.message
  | .refused text => text
  | .malformedTerms => "invalid IDENTIFY response"
  | .malformedGrant => "invalid AUTH response"
  | .secretRequired => "auth required"
  | .upgradeFault fault => "deflate upgrade failed - " ++ fault.message
  | .upgradeRefused text => "invalid response from deflate upgrade: " ++ text

/-- Why an operation failed. -/
inductive Failure where
  /-- There is no live connection. -/
  | notConnected
  /-- There was a stop before. -/
  | stopped
  /-- The connection is about to close. -/
  | closing
  /-- The budget of messages in flight is used up. -/
  | overMaxInFlight
  /-- There is a connection to that address. -/
  | alreadyConnected
  /-- The settings of the session were not agreed on. -/
  | identify (cause : Refusal)
  /-- The secret was turned down. -/
  | auth (cause : Refusal)
  /-- The daemon refused a command, in these words. -/
  | protocol (text : String)
  /-- Nobody would handle messages. -/
  | noHandlers
  /-- Handlers came after the first connection. -/
  | handlersAfterConnect
  /-- A text is no name of a topic. -/
  | invalidTopic (name : String)
  /-- A text is no name of a channel. -/
  | invalidChannel (name : String)
  /-- A text is no address of a lookup service. -/
  | invalidLookupAddress (addr : String) (reason : Lookup.AddressFault)
  /-- The last lookup service cannot be left. -/
  | lastLookup (addr : String)
  /-- A lookup service did not answer, or with a failure. -/
  | lookup (fault : Lookup.QueryFault)
  /-- A configuration is refused. -/
  | config (fault : ConfigFault)
  /-- Octets could not be exchanged. -/
  | io (fault : IoFault)
deriving DecidableEq

/-- The wording of a query's fault, behind the words common to all of them. -/
def Lookup.QueryFault.message : Lookup.QueryFault → String
  | .url endpoint fault =>
    endpoint ++ " - Bad URL: failed to parse URL: " ++ fault.name ++ ": " ++ fault.message
  | .scheme r =>
    r.endpoint ++ " - " ++ r.url.text ++ ": Unknown Scheme: unknown scheme '" ++ r.url.scheme ++ "'"
  | .transport r fault => r.endpoint ++ " - " ++ r.url.text ++ ": " ++ fault.message
  | .failed r status =>
    r.endpoint ++ " - " ++ r.url.text ++ ": status code " ++ toString status
  | .body .malformed => "malformed body"
  | .body (.status code text) => toString code ++ " " ++ text

/-- The wording of a failure. -/
def Failure.message : Failure → String
  | .notConnected => "not connected"
  | .stopped => "stopped"
  | .closing => "closing"
  | .overMaxInFlight => "over configured max-inflight"
  | .alreadyConnected => "already connected"
  | .identify cause => "failed to IDENTIFY - " ++ cause.message
  | .auth cause => "auth failed - " ++ cause.message
  | .protocol text => text
  | .noHandlers => "no handlers"
  | .handlersAfterConnect => "handlers must be added before connecting"
  | .invalidTopic name => "invalid topic name " ++ Text.quoted name
  | .invalidChannel name => "invalid channel name " ++ Text.quoted name
  | .invalidLookupAddress addr reason =>
    "invalid nsqlookupd address " ++ Text.quoted addr ++ ": " ++ reason.message
  | .lastLookup addr => "cannot disconnect from only remaining nsqlookupd HTTP address " ++ addr
  | .lookup fault => "nsqlookupd query failed: " ++ fault.message
  | .config fault => "config error: " ++ fault.message
  | .io fault => "io error: " ++ fault.message

end Nsq
