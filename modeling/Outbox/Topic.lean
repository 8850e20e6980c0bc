import Outbox.Action.Basic

/-!
# Queues by topic

Topics do not depend on each other, so a sync splits its queue into one for each topic. The topics
stand in the order in which they first occur, and the actions of a topic keep the order of the
queue. Actions without a topic share the fallback topic, also with a topic of that name.

`TopicQueue` models `TopicGroup`, and `TopicQueue.ofActions` models `group_by_topic`.
-/

namespace Outbox

/-- The actions of one topic. -/
structure TopicQueue where
  topic : String
  actions : List Action
  deriving DecidableEq, Repr

/-- The topic of an action, or the fallback if it has none. -/
def Action.topicOr (fallback : String) (a : Action) : String := a.topic?.getD fallback

namespace TopicQueue

/-- The fallback topic, unless a configuration names another one. -/
def commonTopic : String := "default"

/-- Puts an action behind the others of its topic; a new topic comes last. -/
def add (topic : String) (a : Action) : List TopicQueue → List TopicQueue
  | [] => [⟨topic, [a]⟩]
  | q :: rest =>
    if q.topic = topic then { q with actions := q.actions ++ [a] } :: rest
    else q :: add topic a rest

/-- The queues of the topics in a queue. -/
def ofActions (fallback : String) (actions : List Action) : List TopicQueue :=
  actions.foldl (fun queues a => add (a.topicOr fallback) a queues) []

end TopicQueue
end Outbox
