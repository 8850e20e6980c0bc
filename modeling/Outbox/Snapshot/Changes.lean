import Outbox.Snapshot.Patch

/-!
# The changes between two snapshots

`changes old new` is one patch for each key on which two objects differ. A value is compared as a
whole, however deep it is, so no patch ever goes below the top level. Keys that are new or have a
new value come first, in the order of the new object; the keys that are gone follow in the order
of the old one. A snapshot that is no object has no keys.

`changes` models `generate_diff_patches`.
-/

namespace Outbox.Snapshot

/-- The patch for a key of the new object, if it is new or has a new value. -/
def writeChange (old : Fields Json) (field : String × Json) : Option Patch :=
  match Fields.get? field.1 old with
  | none => some (.add field.1 field.2)
  | some previous =>
    if previous.same field.2 then none else some (.modify field.1 field.2 (some previous))

/-- The patch for a key of the old object, if it is gone. -/
def deleteChange (new : Fields Json) (field : String × Json) : Option Patch :=
  if Fields.has field.1 new then none else some (.delete field.1 (some field.2))

/-- The patches that lead from one snapshot to another. -/
def changes (old new : Json) : List Patch :=
  new.fields.filterMap (writeChange old.fields) ++
    old.fields.filterMap (deleteChange new.fields)

end Outbox.Snapshot
