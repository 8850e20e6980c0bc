import Outbox.Snapshot.Changes
import Outbox.Snapshot.Replay
import Outbox.Remote.Ask

/-!
# Settling a conflict by hand

The user chooses the local action, the remote one, or the local action with the merged data. The
chosen action is delivered right away, whether or not a sync is running, and only when that worked
does the conflict get its resolution. An attempt that failed leaves the conflict as it was.

The merged data reaches the action by way of patches: those that lead from the local payload to
the merged data are replayed on the local payload. If there is nothing to deliver, because the
remote action or the merged data is not known, the conflict is resolved without a call.

`settleByHand` models `resolve_manually`, `Choice` models `ManualChoice` and `Settlement` models
`ManualOutcome`.
-/

namespace Outbox

variable {σ : Type}

/-- What the user chooses. -/
inductive Choice where
  | local
  | remote
  | merge
  deriving DecidableEq, Repr

/-- The resolution that a choice stands for. -/
def Choice.resolution : Choice → Resolution
  | .local => .local
  | .remote => .remote
  | .merge => .merge

/-- What settling by hand did. -/
structure Settlement where
  /-- The action that was delivered. -/
  delivered : Option Action
  /-- The patches that lead to the merged data. -/
  patches : List Patch
  deriving DecidableEq, Repr

namespace Settlement

/-- How settling by hand ended. -/
inductive Ending where
  | settled (settlement : Settlement)
  | failed (e : DeliveryError)
  | brokeDown
  deriving DecidableEq, Repr

/-- The message of a failure. -/
def failureMessage (e : DeliveryError) : String := "apply failed: " ++ e.message

end Settlement

namespace Conflict

/-- The local action with the merged data, as of now, and the patches that lead there. -/
def merged (c : Conflict) (data : Json) (now : Timestamp) :
    Except DeliveryError (Action × List Patch) := do
  let before := c.localAction.payload.toJson
  let patches := Snapshot.changes before data
  let payload ← (Payload.ofJson (Snapshot.replay before patches)).mapError .invalidPayload
  return ({ c.localAction with payload, createdAt := now }, patches)

/-- What a choice has delivered: an action and the patches that led to it, if anything. -/
def chosen (c : Conflict) (choice : Choice) (now : Timestamp) :
    Except DeliveryError (Option (Action × List Patch)) :=
  match choice with
  | .local => .ok (some (c.localAction, []))
  | .remote => .ok (c.remoteAction.map fun a => (a, []))
  | .merge =>
    match c.mergedData with
    | some data => (c.merged data now).map some
    | none => .ok none

/-- Settles a conflict by hand. -/
def settleByHand (remote : Remote σ) (limit : Option Nat) (choice : Choice) (now : Timestamp)
    (c : Conflict) (turn : Turn) (s : σ) : Timed σ (Settlement.Ending × Conflict) :=
  match c.chosen choice now with
  | .error e => ⟨(.failed e, c), 0, turn, s⟩
  | .ok none => ⟨(.settled ⟨none, []⟩, c.resolve choice.resolution), 0, turn, s⟩
  | .ok (some (a, patches)) =>
    let attempt := remote.deliver limit a turn s
    let ending :=
      match attempt.result with
      | .accepted => (.settled ⟨some a, patches⟩, c.resolve choice.resolution)
      | .failed e => (.failed e, c)
      | .brokeDown => (.brokeDown, c)
    { attempt with result := ending }

end Conflict
end Outbox
