import Outbox.Conflict.Basic

/-!
# The outcome of a sync

A `Report` lists the actions that were carried out, the conflicts that came up and the actions
that failed, and counts the actions that were considered. Reports of parts add up to the report
of the whole. An action that lost its conflict is counted but in neither list of actions.

`Report` models `SyncResult`; `append` is its `absorb` and `lost` its `discarded`.
-/

namespace Outbox

/-- What became of the actions of a sync. -/
structure Report where
  synced : List Action
  conflicts : List Conflict
  failed : List Action
  /-- The number of actions considered, as a 64-bit word. -/
  processed : UInt64
  deriving DecidableEq, Repr

namespace Report

/-- The report of a sync without actions. -/
def empty : Report := ⟨[], [], [], 0⟩

instance : Inhabited Report := ⟨empty⟩

/-- Appends the report of another part. -/
def append (r other : Report) : Report where
  synced := r.synced ++ other.synced
  conflicts := r.conflicts ++ other.conflicts
  failed := r.failed ++ other.failed
  processed := r.processed + other.processed

/-- The number of actions considered that were neither carried out nor failed. -/
def lost (r : Report) : Nat := r.processed.toNat - (r.synced.length + r.failed.length)

/-- The fields of a report. -/
def record : Record Report :=
  Report.mk <$> Record.required "syncedActions" (Decode.list Action.decode)
    <*> Record.required "conflicts" (Decode.list Conflict.decode)
    <*> Record.required "failedActions" (Decode.list Action.decode)
    <*> Record.required "totalProcessed" Decode.unsigned

/-- Reads a report. -/
def decode : Decoder Report := record.decode

/-- Writes a report. -/
def toJson (r : Report) : Json :=
  .obj [("syncedActions", .arr (r.synced.map Action.toJson)),
    ("conflicts", .arr (r.conflicts.map Conflict.toJson)),
    ("failedActions", .arr (r.failed.map Action.toJson)),
    ("totalProcessed", .nat r.processed.toNat)]

end Report
end Outbox
