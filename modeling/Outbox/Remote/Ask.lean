import Outbox.Conflict.Settle
import Outbox.Duration
import Outbox.Remote.Operation
import Outbox.Turn

/-!
# Asking the remote system about one action

`deliver` carries out one action and `findConflict` looks for its conflict, each from start to end,
with a limit in milliseconds if one is set. A limit on `deliver` is for all calls of the action:
an answer that would come after it is not waited for and further calls are not made. Both go on
with the turn of the one who asks, and hand back what is left of it.

`findConflict` asks only about the entity that the payload names. Whatever keeps the time of the
last modification from it, be it an error or the limit, means that there is no conflict.

`deliver` models `apply_action`, and `perform` its `execute`. `findConflict` models
`detect_conflict`, and `Action.lookupTarget?` the part of `entity_last_modified` before the look-up.
-/

namespace Outbox

/-- The message of an error. -/
def DeliveryError.message : DeliveryError → String
  | .unsupportedKind kind => "unsupported action kind: " ++ kind.name
  | .invalidPayload cause => "invalid action payload: " ++ cause.message
  | .remote cause => "remote operation failed: " ++ cause.message
  | .timeout limit => "apply timed out after " ++ Duration.millisText limit

/-- How an attempt ended. -/
inductive Attempt where
  | accepted
  | failed (e : DeliveryError)
  /-- The one who asked broke down. -/
  | brokeDown
  deriving DecidableEq, Repr

/-- A result, the milliseconds it took, what is left of the turn of the one who asked, and the
state of the remote system after it. -/
structure Timed (σ α : Type) where
  result : α
  elapsed : Nat
  turn : Turn
  state : σ
  deriving DecidableEq, Repr

variable {σ : Type}

namespace Remote

/-- Makes calls in order until one fails. `limit` is the whole limit and `left` what is left of
it. -/
def perform (remote : Remote σ) (limit : Nat) :
    Option Nat → List Call → Turn → σ → Timed σ Attempt
  | _, [], turn, s => ⟨.accepted, 0, turn, s⟩
  | left, call :: calls, turn, s =>
    let (reply, s) := remote.call s call
    let wait := turn.wait reply.delay left
    if wait.inTime then
      match reply.answer with
      | .value () =>
        let later := remote.perform limit (left.map (· - wait.millis)) calls wait.turn s
        { later with elapsed := wait.millis + later.elapsed }
      | .error e => ⟨.failed (.remote e), wait.millis, wait.turn, s⟩
      | .breakdown => ⟨.brokeDown, wait.millis, wait.turn, s⟩
    else ⟨.failed (.timeout limit), wait.millis, wait.turn, s⟩

/-- Delivers an action. -/
def deliver (remote : Remote σ) (limit : Option Nat) (a : Action) (turn : Turn) (s : σ) :
    Timed σ Attempt :=
  match Operation.ofAction a with
  | .error e => ⟨.failed e, 0, turn, s⟩
  | .ok op => remote.perform (limit.getD 0) limit op.calls turn.beginRequest s

end Remote

/-- The entity that an action's payload names, if it is of a known kind. -/
def Action.lookupTarget? (a : Action) : Option Entity := do
  let kind ← nonEmpty? a.payload.entityType
  let id ← nonEmpty? a.payload.entityId
  let kind ← EntityKind.ofName? kind
  return ⟨kind, id⟩

/-- The time that an answer gives. -/
def Answer.time? : Answer (Option Timestamp) → Option Timestamp
  | .value t => t
  | .error _ => none
  | .breakdown => none

/-- How a search for a conflict ended. -/
inductive Detection where
  | done (conflict : Option Conflict)
  /-- The one who asked broke down. -/
  | brokeDown
  deriving DecidableEq, Repr

/-- Looks for the conflict of an action. -/
def Remote.findConflict (remote : Remote σ) (limit : Option Nat) (a : Action) (turn : Turn)
    (s : σ) : Timed σ Detection :=
  match a.lookupTarget? with
  | none => ⟨.done (Conflict.ofModification? a none), 0, turn, s⟩
  | some entity =>
    let (reply, s) := remote.lookup s entity
    let wait := turn.beginRequest.wait reply.delay limit
    if wait.inTime then
      match reply.answer with
      | .breakdown => ⟨.brokeDown, wait.millis, wait.turn, s⟩
      | answer => ⟨.done (Conflict.ofModification? a answer.time?), wait.millis, wait.turn, s⟩
    else ⟨.done (Conflict.ofModification? a none), wait.millis, wait.turn, s⟩

end Outbox
