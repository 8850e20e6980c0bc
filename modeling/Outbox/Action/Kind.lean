import Outbox.Decode

/-!
# Kinds of actions and of entities

Both are closed sets with one written name for each member. Joining and leaving a topic are also
read under an older name each.

`ActionKind` models `ActionType` and `EntityKind` models `EntityType`; `name` is `as_str` of either.
-/

namespace Outbox

/-- What a user can do while offline. -/
inductive ActionKind where
  | createPost
  | deletePost
  | likePost
  | like
  | boost
  | bookmark
  | unbookmark
  | follow
  | unfollow
  | profileUpdate
  | joinTopic
  | leaveTopic
  | topicCreate
  | topicUpdate
  | topicDelete
  | sendDirectMessage
  deriving DecidableEq, Repr

namespace ActionKind

/-- The written name of a kind. -/
def name : ActionKind → String
  | .createPost => "create_post"
  | .deletePost => "delete_post"
  | .likePost => "like_post"
  | .like => "like"
  | .boost => "boost"
  | .bookmark => "bookmark"
  | .unbookmark => "unbookmark"
  | .follow => "follow"
  | .unfollow => "unfollow"
  | .profileUpdate => "profile_update"
  | .joinTopic => "join_topic"
  | .leaveTopic => "leave_topic"
  | .topicCreate => "topic_create"
  | .topicUpdate => "topic_update"
  | .topicDelete => "topic_delete"
  | .sendDirectMessage => "send_direct_message"

/-- The kind of a written name, older names included. -/
def ofName? : String → Option ActionKind
  | "create_post" => some .createPost
  | "delete_post" => some .deletePost
  | "like_post" => some .likePost
  | "like" => some .like
  | "boost" => some .boost
  | "bookmark" => some .bookmark
  | "unbookmark" => some .unbookmark
  | "follow" => some .follow
  | "unfollow" => some .unfollow
  | "profile_update" => some .profileUpdate
  | "join_topic" => some .joinTopic
  | "topic_join" => some .joinTopic
  | "leave_topic" => some .leaveTopic
  | "topic_leave" => some .leaveTopic
  | "topic_create" => some .topicCreate
  | "topic_update" => some .topicUpdate
  | "topic_delete" => some .topicDelete
  | "send_direct_message" => some .sendDirectMessage
  | _ => none

theorem ofName?_name (k : ActionKind) : ofName? k.name = some k := by cases k <;> rfl

/-- Reads a kind. -/
def decode : Decoder ActionKind := Decode.variant ofName?

/-- Writes a kind. -/
def toJson (k : ActionKind) : Json := .str k.name

end ActionKind

/-- The entities whose time of modification a remote knows. -/
inductive EntityKind where
  | post
  | topic
  | user
  | reaction
  deriving DecidableEq, Repr

namespace EntityKind

/-- The written name of a kind. -/
def name : EntityKind → String
  | .post => "post"
  | .topic => "topic"
  | .user => "user"
  | .reaction => "reaction"

/-- The kind of a written name. -/
def ofName? : String → Option EntityKind
  | "post" => some .post
  | "topic" => some .topic
  | "user" => some .user
  | "reaction" => some .reaction
  | _ => none

theorem ofName?_name (k : EntityKind) : ofName? k.name = some k := by cases k <;> rfl

theorem ofName?_eq_some {s : String} {k : EntityKind} (h : ofName? s = some k) : s = k.name := by
  unfold ofName? at h
  split at h <;> simp at h <;> subst h <;> rfl

/-- Reads a kind. -/
def decode : Decoder EntityKind := Decode.variant ofName?

/-- Writes a kind. -/
def toJson (k : EntityKind) : Json := .str k.name

end EntityKind
end Outbox
