import Nsq.Failure
import Nsq.Name

/-!
# Subscriptions

A consumer reads one channel of one topic under a configuration. `Subscription.create` checks all
three, the configuration first.
-/

namespace Nsq

/-- What a consumer reads, and how. -/
structure Subscription where
  /-- The topic. -/
  topic : String
  /-- The channel of the topic. -/
  channel : String
  /-- The configuration. -/
  config : Config

namespace Subscription

/-- Checks the configuration, the topic and the channel. -/
def create (topic channel : String) (config : Config) : Except Failure Subscription :=
  match config.validate with
  | .error fault => .error (.config fault)
  | .ok () =>
    if !Name.isValidTopic topic then .error (.invalidTopic topic)
    else if !Name.isValidChannel channel then .error (.invalidChannel channel)
    else .ok ⟨topic, channel, config⟩

/-- The words by which a consumer is known. -/
def label (s : Subscription) : String := "[" ++ s.topic ++ "/" ++ s.channel ++ "]"

end Subscription

end Nsq
