import Outbox.Remote.Basic

/-!
# A remote system that follows a script

`ScriptedRemote` answers from tables: when entities were modified, which topics, subscriptions,
posts and look-ups fail, and which topics make the caller break down. It can fail the next call
whatever it is, and delay its answers. It keeps a log of all calls and look-ups, also of those that
fail.

The script may set any delay, but it leaves the waiting to a timer, and a timer waits thirty years
at most. So an answer comes after that time even if a longer delay was set (`longestDelay`).

It models `MockRemote`: `remote` answers a call as `record` does and a look-up as `last_modified`
does, each with its `sleep`, and `refusal?` is `check`.
-/

namespace Outbox

/-- The script and the log. -/
structure ScriptedRemote where
  /-- All calls, in order. -/
  calls : List Call
  /-- All look-ups, in order. -/
  lookups : List Entity
  /-- The latest entry of an entity counts. -/
  modifiedAt : List (Entity × Timestamp)
  lostLookups : List String
  refusedTopics : List String
  refusedSubscriptions : List String
  refusedPosts : List String
  /-- Topics that make the caller break down. -/
  breakdownTopics : List String
  /-- The error that the next call will meet. -/
  nextFailure : Option String
  callDelay : Option Nat
  lookupDelay : Option Nat
  deriving DecidableEq, Repr

namespace ScriptedRemote

/-- Nothing is known and nothing fails. -/
def empty : ScriptedRemote := ⟨[], [], [], [], [], [], [], [], none, none, none⟩

instance : Inhabited ScriptedRemote := ⟨empty⟩

/-- Enters the time of an entity's last modification. -/
def modified (s : ScriptedRemote) (entity : Entity) (time : Timestamp) : ScriptedRemote :=
  { s with modifiedAt := (entity, time) :: s.modifiedAt }

/-- Whether the script refuses a call, and with what error. -/
def refusal? (s : ScriptedRemote) : Call → Option RemoteFault
  | .createPost _ topicId _ _ => refusedTopic topicId
  | .joinTopic topicId => refusedTopic topicId
  | .leaveTopic topicId => refusedTopic topicId
  | .subscribe topicId =>
    if s.refusedTopics.contains topicId || s.refusedSubscriptions.contains topicId then
      some (.rejected ("subscription to " ++ topicId ++ " refused"))
    else none
  | .likePost postId =>
    if s.refusedPosts.contains postId then some (.rejected ("post " ++ postId ++ " unavailable"))
    else none
where
  refusedTopic (topicId : String) : Option RemoteFault :=
    if s.refusedTopics.contains topicId then
      some (.rejected ("topic " ++ topicId ++ " unavailable"))
    else none

/-- Whether a call makes the caller break down. -/
def breaksDown (s : ScriptedRemote) (call : Call) : Bool :=
  match call.topic? with
  | some topicId => s.breakdownTopics.contains topicId
  | none => false

/-- The answer to a call. -/
def callAnswer (s : ScriptedRemote) (call : Call) : Answer Unit :=
  if s.breaksDown call then .breakdown
  else
    match s.nextFailure with
    | some reason => .error (.unavailable reason)
    | none =>
      match s.refusal? call with
      | some e => .error e
      | none => .value ()

/-- The answer to a look-up. -/
def lookupAnswer (s : ScriptedRemote) (entity : Entity) : Answer (Option Timestamp) :=
  if s.lostLookups.contains entity.id then
    .error (.unavailable ("metadata for " ++ entity.id ++ " unavailable"))
  else .value (s.modifiedAt.lookup entity)

/-- The milliseconds of thirty years of 365 days, which is the longest that a timer waits. The limit
is the timer's: the script sets its delays without one. -/
def longestDelay : Nat := 30 * 365 * 86400000

/-- How long the timer waits where the script sets a delay. -/
def kept (delay : Option Nat) : Option Nat := delay.map (min · longestDelay)

/-- The remote system that follows the script. Every call uses up a failure that was set for the
next one. -/
def remote : Remote ScriptedRemote where
  lookup s entity :=
    (⟨s.lookupAnswer entity, kept s.lookupDelay⟩, { s with lookups := s.lookups ++ [entity] })
  call s call :=
    (⟨s.callAnswer call, kept s.callDelay⟩,
      { s with calls := s.calls ++ [call], nextFailure := none })

end ScriptedRemote
end Outbox
