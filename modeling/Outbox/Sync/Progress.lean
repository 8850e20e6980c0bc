import Outbox.Double.Basic
import Outbox.Json.Basic

/-!
# The progress of a sync

Counters that a running sync publishes after each action. All topics of a sync share them.

`Progress` models `SyncProgress`: `ofBatch`, `percentage` and `isDone` are its `starting`, `percent`
and `is_complete`, and `count` is the update at the end of each action in `sync_topic_group`. `Fate`
models `ActionOutcome`.
-/

namespace Outbox

/-- What became of an action. -/
inductive Fate where
  /-- It was carried out. -/
  | synced
  /-- Carrying it out failed. -/
  | failed
  /-- It lost its conflict. -/
  | lost
  deriving DecidableEq, Repr

/-- How far a sync has come. -/
structure Progress where
  total : Nat
  processed : Nat
  synced : Nat
  failed : Nat
  conflicts : Nat
  deriving DecidableEq, Repr

namespace Progress

/-- The progress before the first sync. -/
def none : Progress := ⟨0, 0, 0, 0, 0⟩

/-- The progress at the start of a sync of `total` actions. -/
def ofBatch (total : Nat) : Progress := { none with total := total }

/-- Counts an action that is done with. -/
def count (p : Progress) (fate : Fate) (conflicted : Bool) : Progress where
  total := p.total
  processed := p.processed + 1
  synced := p.synced + (if fate = .synced then 1 else 0)
  failed := p.failed + (if fate = .failed then 1 else 0)
  conflicts := p.conflicts + conflicted.toNat

/-- The processed part of the whole in percent, 0 if there is nothing to do. -/
def percentage (p : Progress) : Double :=
  if p.total = 0 then Double.ofNat 0
  else ((Double.ofNat p.processed).divide (Double.ofNat p.total)).multiply (Double.ofNat 100)

/-- Whether every action has been considered. -/
def isDone (p : Progress) : Bool := p.total ≤ p.processed

/-- Writes the counters. -/
def toJson (p : Progress) : Json :=
  .obj [("total", .nat p.total), ("processed", .nat p.processed), ("synced", .nat p.synced),
    ("failed", .nat p.failed), ("conflicts", .nat p.conflicts)]

end Progress
end Outbox
