import Outbox.Action.Basic

/-!
# The remote system

A sync asks a remote system when an entity was last modified and calls it to carry out actions.
A `Remote` with states `σ` answers both from its state and may change it. An answer is there at
once or comes after a delay, which may be one of no time at all. It can be a value, an error, or
the breakdown of whoever asked.

Any behaviour of a remote system is one of these: its state may hold all that it was ever asked.

A `Remote` stands for the four traits of the remote collaborators, `EntityMetadata`, `PostService`,
`TopicTransport` and `TopicSubscriptions`: `lookup` is the first, and `call` the three others.
`Call` models `RemoteCall` and `RemoteFault` models `RemoteError`.
-/

namespace Outbox

/-- A call that carries out an action or a part of one. -/
inductive Call where
  | createPost (content topicId : String) (replyTo quotedPost : Option String)
  | likePost (postId : String)
  | joinTopic (topicId : String)
  | leaveTopic (topicId : String)
  | subscribe (topicId : String)
  deriving DecidableEq, Repr

/-- The topic that a call names. -/
def Call.topic? : Call → Option String
  | .createPost _ topicId _ _ => some topicId
  | .likePost _ => none
  | .joinTopic topicId => some topicId
  | .leaveTopic topicId => some topicId
  | .subscribe topicId => some topicId

/-- Why a remote system did not do what it was asked. -/
inductive RemoteFault where
  | rejected (reason : String)
  | unavailable (reason : String)
  | timeout
  deriving DecidableEq, Repr

/-- The message of an error. -/
def RemoteFault.message : RemoteFault → String
  | .rejected reason => "rejected: " ++ reason
  | .unavailable reason => "unavailable: " ++ reason
  | .timeout => "remote timeout"

/-- An entity whose modification a remote system knows. -/
structure Entity where
  kind : EntityKind
  id : String
  deriving DecidableEq, Repr

/-- What an answer says. -/
inductive Answer (α : Type) where
  | value (a : α)
  | error (e : RemoteFault)
  /-- The one who asked breaks down. -/
  | breakdown
  deriving DecidableEq, Repr

/-- An answer. -/
structure Reply (α : Type) where
  answer : Answer α
  /-- The milliseconds that it has to be waited for; `none` if it is there at once. -/
  delay : Option Nat
  deriving DecidableEq, Repr

/-- A remote system with states `σ`. -/
structure Remote (σ : Type) where
  /-- When was an entity last modified, if ever? -/
  lookup : σ → Entity → Reply (Option Timestamp) × σ
  /-- Carries out a call. -/
  call : σ → Call → Reply Unit × σ

end Outbox
