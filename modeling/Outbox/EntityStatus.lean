import Outbox.Report

/-!
# The state of entities after a sync

The client keeps a record for each entity that an action touches. `records` derives them from a
report: first the actions that were carried out, then those that failed, then the conflicts of
actions that were not carried out.

The entity of an action is the one that its payload names. Without a name its kind follows from
the kind of action, and its id is the first id that the payload has, or else the local id.

`records` models `status_updates`, and `Entry` and `Standing` its `EntityStatusUpdate` and
`EntitySyncStatus`. `EntityRef` models `EntityContext`, which `Action.entity?` makes of an action as
`for_action` does, with `ActionKind.entityKind?` for `infer_entity_type`.
-/

namespace Outbox

/-- The entity that an action touches. -/
structure EntityRef where
  kind : String
  id : String
  deriving DecidableEq, Repr

/-- The kind of entity that a kind of action touches. -/
def ActionKind.entityKind? : ActionKind → Option String
  | .createPost | .deletePost | .likePost | .like | .boost | .bookmark | .unbookmark => some "post"
  | .follow | .unfollow | .profileUpdate => some "user"
  | .joinTopic | .leaveTopic => some "topic_membership"
  | .topicCreate | .topicUpdate | .topicDelete => some "topic"
  | .sendDirectMessage => none

/-- The entity of an action, if its payload or its kind tells the kind of entity. -/
def Action.entity? (a : Action) : Option EntityRef :=
  ((nonEmpty? a.payload.entityType).or a.kind.entityKind?).map fun kind =>
    { kind
      id := ((nonEmpty? a.payload.entityId).or <| (nonEmpty? a.payload.topicId).or <|
        (nonEmpty? a.payload.postId).or (nonEmpty? a.payload.userId)).getD a.localId.text }

namespace EntityStatus

/-- How an entity stands. -/
inductive Standing where
  | fullySynced
  | failed
  | conflict (kind : ConflictKind) (resolution : Option Resolution)
  deriving DecidableEq, Repr

/-- How one entity stands. -/
structure Entry where
  entity : EntityRef
  standing : Standing
  deriving DecidableEq, Repr

/-- The record of an action, if it has an entity. -/
def record? (standing : Standing) (a : Action) : Option Entry :=
  a.entity?.map fun entity => ⟨entity, standing⟩

/-- The record of a conflict, unless its action was carried out. -/
def conflictRecord? (synced : List LocalId) (c : Conflict) : Option Entry :=
  if synced.contains c.localAction.localId then none
  else record? (.conflict c.kind c.resolution) c.localAction

/-- The records of a report. -/
def records (r : Report) : List Entry :=
  r.synced.filterMap (record? .fullySynced) ++ r.failed.filterMap (record? .failed) ++
    r.conflicts.filterMap (conflictRecord? (r.synced.map Action.localId))

/-- The written name of a standing. -/
def Standing.name : Standing → String
  | .fullySynced => "fully_synced"
  | .failed => "failed"
  | .conflict _ _ => "conflict"

/-- What a standing says about its conflict. -/
def Standing.detail : Standing → List (String × Json)
  | .conflict kind resolution =>
    [("conflict", .obj [("conflictType", kind.toJson),
      ("resolution", .ofOption (resolution.map Resolution.toJson))])]
  | _ => []

end EntityStatus

/-- The fields of an entity. -/
def EntityRef.fields (e : EntityRef) : List (String × Json) :=
  [("entityType", .str e.kind), ("entityId", .str e.id)]

/-- Writes an entity. -/
def EntityRef.toJson (e : EntityRef) : Json := .obj e.fields

/-- Writes a record. -/
def EntityStatus.Entry.toJson (e : EntityStatus.Entry) : Json :=
  .obj (e.entity.fields ++ [("status", .str e.standing.name)] ++ e.standing.detail)

end Outbox
