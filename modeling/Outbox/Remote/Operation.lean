import Outbox.Remote.Basic

/-!
# What an action asks of the remote system

Four kinds of actions stand for an `Operation`; the others have none. An operation is a list of
calls that are made in order, and it succeeds when all of them do. Joining a topic is two calls,
and a refused subscription does not undo the join.

`Operation` models `RemoteOperation` and `ofAction` its `for_action`; `calls` are the calls that
`execute` makes. `DeliveryError` models `ApplyError`.
-/

namespace Outbox

/-- What is to be done remotely. -/
inductive Operation where
  | createPost (content topicId : String) (replyTo quotedPost : Option String)
  | likePost (postId : String)
  | joinTopic (topicId : String)
  | leaveTopic (topicId : String)
  deriving DecidableEq, Repr

/-- Why an action was not delivered. -/
inductive DeliveryError where
  | unsupportedKind (kind : ActionKind)
  | invalidPayload (cause : PayloadError)
  | remote (cause : RemoteFault)
  /-- The limit in milliseconds was exceeded. -/
  | timeout (limit : Nat)
  deriving DecidableEq, Repr

namespace Operation

/-- A field of the payload that the kind of action needs. -/
def need (a : Action) (value : Option String) (field : String) : Except DeliveryError String :=
  (Payload.mandatory value a.kind field).mapError .invalidPayload

/-- The operation of an action. -/
def ofAction (a : Action) : Except DeliveryError Operation :=
  match a.kind with
  | .createPost => do
    let content ← need a a.payload.content "content"
    let topicId ← need a a.payload.topicId "topicId"
    return .createPost content topicId a.payload.replyTo a.payload.quotedPost
  | .likePost => return .likePost (← need a a.payload.postId "postId")
  | .joinTopic => return .joinTopic (← need a a.payload.topicId "topicId")
  | .leaveTopic => return .leaveTopic (← need a a.payload.topicId "topicId")
  | kind => throw (.unsupportedKind kind)

/-- The calls of an operation. -/
def calls : Operation → List Call
  | .createPost content topicId replyTo quotedPost =>
    [.createPost content topicId replyTo quotedPost]
  | .likePost postId => [.likePost postId]
  | .joinTopic topicId => [.joinTopic topicId, .subscribe topicId]
  | .leaveTopic topicId => [.leaveTopic topicId]

end Operation
end Outbox
