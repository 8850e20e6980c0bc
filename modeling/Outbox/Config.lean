import Outbox.Duration
import Outbox.Topic

/-!
# Configuration of a sync

How many topics may be worked on at a time, how long the remote system may take, and the topic of
actions that have none. Limits are whole milliseconds; without a limit a sync waits for as long as
it takes.

`Config` models `EngineConfig`: `setDeliveryLimit` and `setLookupLimit` are `with_apply_timeout` and
`with_lookup_timeout`, and `deliverySpan` and `lookupSpan`, which give the limits back, are
`apply_timeout` and `lookup_timeout`.
-/

namespace Outbox

/-- The settings of a sync. -/
structure Config where
  /-- How many topics may be worked on at a time; 0 is for all of them. -/
  topicsAtATime : Nat
  /-- The limit for delivering one action. -/
  deliveryLimit : Option UInt64
  /-- The limit for one look-up. -/
  lookupLimit : Option UInt64
  /-- The topic of actions that have none. -/
  fallbackTopic : String
  deriving DecidableEq, Repr

namespace Config

/-- All topics at a time, no limits, and the common topic. -/
def default : Config := ⟨0, none, none, TopicQueue.commonTopic⟩

instance : Inhabited Config := ⟨default⟩

/-- Limits the delivery of one action; what is below a millisecond is cut. -/
def setDeliveryLimit (c : Config) (d : Duration) : Config :=
  { c with deliveryLimit := some d.storedMillis }

/-- Limits one look-up; what is below a millisecond is cut. -/
def setLookupLimit (c : Config) (d : Duration) : Config :=
  { c with lookupLimit := some d.storedMillis }

/-- The limit for delivering one action, as a span of time. -/
def deliverySpan (c : Config) : Option Duration := c.deliveryLimit.map Duration.ofMillis

/-- The limit for one look-up, as a span of time. -/
def lookupSpan (c : Config) : Option Duration := c.lookupLimit.map Duration.ofMillis

end Config

/-- The limits of a sync in milliseconds. -/
structure Limits where
  delivery : Option Nat
  lookup : Option Nat
  deriving DecidableEq, Repr

/-- The limits that a configuration sets. -/
def Config.limits (c : Config) : Limits :=
  ⟨c.deliveryLimit.map UInt64.toNat, c.lookupLimit.map UInt64.toNat⟩

end Outbox
