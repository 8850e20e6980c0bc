import Outbox.Action.Basic

/-!
# Conflicts

A conflict is a queued action that disagrees with the state of the remote system. Its kind
decides how it is settled, and a settled conflict carries its resolution.

`Conflict` models `SyncConflict` and `ConflictKind` models `ConflictType`; `fresh`, `against` and
`mergingTo` are `new`, `with_remote` and `with_merged_data`. `Resolution.keepsLocal` is
`applies_local`.
-/

namespace Outbox

/-- How a conflict was found. -/
inductive ConflictKind where
  /-- The entity changed remotely after the action was queued. -/
  | timestamp
  /-- Both sides carry a version. -/
  | version
  /-- The kind of action has a policy. -/
  | merge
  deriving DecidableEq, Repr

namespace ConflictKind

/-- The written name of a kind. -/
def name : ConflictKind → String
  | .timestamp => "timestamp"
  | .version => "version"
  | .merge => "merge"

/-- The kind of a written name. -/
def ofName? : String → Option ConflictKind
  | "timestamp" => some .timestamp
  | "version" => some .version
  | "merge" => some .merge
  | _ => none

theorem ofName?_name (k : ConflictKind) : ofName? k.name = some k := by cases k <;> rfl

/-- Reads a kind. -/
def decode : Decoder ConflictKind := Decode.variant ofName?

/-- Writes a kind. -/
def toJson (k : ConflictKind) : Json := .str k.name

end ConflictKind

/-- Which side of a conflict prevails. -/
inductive Resolution where
  /-- The local action is carried out. -/
  | local
  /-- The remote state stays and the local action is discarded. -/
  | remote
  /-- A merged form of the action is carried out. -/
  | merge
  /-- The user has to decide. -/
  | manual
  deriving DecidableEq, Repr

namespace Resolution

/-- The written name of a resolution. -/
def name : Resolution → String
  | .local => "local"
  | .remote => "remote"
  | .merge => "merge"
  | .manual => "manual"

/-- The resolution of a written name. -/
def ofName? : String → Option Resolution
  | "local" => some .local
  | "remote" => some .remote
  | "merge" => some .merge
  | "manual" => some .manual
  | _ => none

theorem ofName?_name (r : Resolution) : ofName? r.name = some r := by cases r <;> rfl

/-- Reads a resolution. -/
def decode : Decoder Resolution := Decode.variant ofName?

/-- Writes a resolution. -/
def toJson (r : Resolution) : Json := .str r.name

/-- Whether the local action is carried out, merged or not. -/
def keepsLocal : Resolution → Bool
  | .local => true
  | .merge => true
  | .remote => false
  | .manual => false

end Resolution

/-- A queued action that disagrees with the remote state. -/
structure Conflict where
  localAction : Action
  /-- The competing remote action, if it is known. -/
  remoteAction : Option Action
  kind : ConflictKind
  /-- The resolution of a settled conflict. -/
  resolution : Option Resolution
  /-- The payload that a merge arrived at. -/
  mergedData : Option Json
  deriving DecidableEq, Repr

namespace Conflict

/-- A conflict that is not settled and of which only the local side is known. -/
def fresh (localAction : Action) (kind : ConflictKind) : Conflict :=
  ⟨localAction, none, kind, none, none⟩

/-- Attaches the competing action. -/
def against (c : Conflict) (remoteAction : Action) : Conflict :=
  { c with remoteAction := some remoteAction }

/-- Attaches a merged payload. -/
def mergingTo (c : Conflict) (mergedData : Json) : Conflict :=
  { c with mergedData := some mergedData }

/-- Whether a resolution has been chosen. -/
def isSettled (c : Conflict) : Bool := c.resolution.isSome

/-- The fields of a conflict. -/
def record : Record Conflict :=
  Conflict.mk <$> Record.required "localAction" Action.decode
    <*> Record.optional "remoteAction" Action.decode
    <*> Record.required "conflictType" ConflictKind.decode
    <*> Record.optional "resolution" Resolution.decode
    <*> Record.optional "mergedData" Decode.value

/-- Reads a conflict. -/
def decode : Decoder Conflict := record.decode

/-- Writes a conflict. -/
def toJson (c : Conflict) : Json :=
  .obj ([("localAction", c.localAction.toJson)] ++
    c.remoteAction.toList.map (fun a => ("remoteAction", a.toJson)) ++
    [("conflictType", c.kind.toJson)] ++
    c.resolution.toList.map (fun r => ("resolution", r.toJson)) ++
    c.mergedData.toList.map fun j => ("mergedData", j))

end Conflict
end Outbox
