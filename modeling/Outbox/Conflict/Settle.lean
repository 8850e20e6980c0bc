import Outbox.Conflict.Basic

/-!
# Finding and settling conflicts

An action conflicts with its entity when the entity was modified after the action was queued.

Settling compares the two sides of a conflict. The later action prevails, or the higher version,
and the local side prevails a tie; a missing remote action counts as made at the epoch and a
missing version as 0. The kinds of actions that are safe to repeat keep the local side without a
comparison. Settling looks at neither an earlier resolution nor the merged data, and changes the
resolution only.

`ofModification?` models `detect_timestamp_conflict` and `settle` models `resolve_conflict`.
`laterSide`, `higherSide` and `policySide` are the sides that `resolve_lww`, `resolve_version` and
`apply_merge_policy` choose; `MergeRule` models `MergePolicy`, with `ofKind` for its `for_action`.
-/

namespace Outbox

/-- How a merge is settled. -/
inductive MergeRule where
  /-- The later action supersedes the earlier one. -/
  | laterWins
  /-- The local action stays. -/
  | localStays
  deriving DecidableEq, Repr

/-- Membership is superseded. Posting twice is accepted and liking twice is harmless, so these
two kinds stay. -/
def MergeRule.ofKind : ActionKind → MergeRule
  | .createPost => .localStays
  | .likePost => .localStays
  | _ => .laterWins

namespace Conflict

/-- The conflict of an action with an entity that was modified at an instant, if it ever was. -/
def ofModification? (a : Action) (modifiedAt : Option Timestamp) : Option Conflict :=
  match modifiedAt with
  | none => none
  | some t => if a.createdAt < t then some (fresh a .timestamp) else none

theorem ofModification?_eq_some_iff {a : Action} {modifiedAt : Option Timestamp} {c : Conflict} :
    ofModification? a modifiedAt = some c ↔
      c = fresh a .timestamp ∧ ∃ t, modifiedAt = some t ∧ a.createdAt < t := by
  rcases modifiedAt with _ | t
  · simp [ofModification?]
  · by_cases hlt : a.createdAt < t
    · simp [ofModification?, hlt, eq_comm]
    · simp [ofModification?, hlt]

/-- When the remote action was queued. -/
def remoteTime (c : Conflict) : Timestamp :=
  match c.remoteAction with
  | some a => a.createdAt
  | none => .epoch

/-- The version of the remote action. -/
def remoteVersion (c : Conflict) : UInt64 := (c.remoteAction.bind (·.payload.version)).getD 0

/-- The later action prevails. -/
def laterSide (c : Conflict) : Resolution :=
  if c.remoteTime ≤ c.localAction.createdAt then .local else .remote

/-- The higher version prevails. -/
def higherSide (c : Conflict) : Resolution :=
  if c.remoteVersion ≤ c.localAction.payload.version.getD 0 then .local else .remote

/-- The policy of the local action's kind decides. -/
def policySide (c : Conflict) : Resolution :=
  match MergeRule.ofKind c.localAction.kind with
  | .laterWins => c.laterSide
  | .localStays => .local

/-- The side that prevails in a conflict of this kind. -/
def side (c : Conflict) : Resolution :=
  match c.kind with
  | .timestamp => c.laterSide
  | .version => c.higherSide
  | .merge => c.policySide

/-- Records a resolution. -/
def resolve (c : Conflict) (r : Resolution) : Conflict := { c with resolution := some r }

/-- Settles a conflict by its kind. -/
def settle (c : Conflict) : Conflict := c.resolve c.side

end Conflict
end Outbox
