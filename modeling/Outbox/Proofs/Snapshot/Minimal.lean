import Outbox.Proofs.Snapshot.Onto

/-!
# No shorter list of patches

The changes between two objects are as few as they can be: no list of patches that leads from the
one to the other is shorter, also not with paths that go below the top level
(`Snapshot.changes_minimal`).

A patch enters an object at one key, and all other keys keep their values. So a list of patches
that leads to the new object has, for each key on which the two differ, a patch that enters there
(`Snapshot.mem_topKeys_of_differ`). The changes have exactly one for each such key.
-/

namespace Outbox.Snapshot

variable {old new : Fields Json} {patches : List Patch} {key : String}

/-- **Patches that lead to the new object enter at each key on which the old one differs.** -/
theorem mem_topKeys_of_differ (hold : (Fields.keys old).Nodup) (hnew : (Fields.keys new).Nodup)
    (hleads : (replay (.obj old) patches).same (.obj new) = true) (h : Differ old new key) :
    key ∈ patches.map topKey := by
  by_contra hnone
  rw [replay_obj, Json.same_obj_iff (nodup_keys_foldl_replayOne patches hold) hnew] at hleads
  have hkept := hleads key
  rw [get?_foldl_replayOne_of_not_mem hnone, h] at hkept
  cases hkept

/-- So they are at least as many as the changes, each of which is for another key. -/
theorem length_changes_le (hold : (Fields.keys old).Nodup) (hnew : (Fields.keys new).Nodup)
    (hleads : (replay (.obj old) patches).same (.obj new) = true) :
    (changes (.obj old) (.obj new)).length ≤ patches.length := by
  have hsub : (changes (.obj old) (.obj new)).map Patch.path ⊆ patches.map topKey := by
    intro key hkey
    obtain ⟨p, hp, rfl⟩ := List.mem_map.mp hkey
    exact mem_topKeys_of_differ hold hnew hleads (of_mem_changes hnew hp).2
  have hle := ((nodup_paths_changes hold hnew).subperm hsub).length_le
  rwa [List.length_map, List.length_map] at hle

/-- **No list of patches that leads from one object to another is shorter than the changes**
between them. No two of the changes are for one key, and there are none between objects that are
the same. -/
theorem changes_minimal (hold : (Fields.keys old).Nodup) (hnew : (Fields.keys new).Nodup) :
    (∀ patches, (replay (.obj old) patches).same (.obj new) = true →
        (changes (.obj old) (.obj new)).length ≤ patches.length) ∧
      ((changes (.obj old) (.obj new)).map Patch.path).Nodup ∧
      (changes (.obj old) (.obj new) = [] ↔ (Json.obj old).same (.obj new) = true) :=
  ⟨fun _ hleads => length_changes_le hold hnew hleads, nodup_paths_changes hold hnew,
    changes_eq_nil_iff hold hnew⟩

/-- A page with a title and a language, and tags. -/
def sampleDraft : Fields Json :=
  [("page", .obj [("title", .str "draft"), ("lang", .null)]), ("tags", .arr [])]

/-- The page has another title and no language, and there are no tags. -/
def sampleFinal : Fields Json := [("page", .obj [("title", .str "final")])]

/-- Three patches, two of them below the page. -/
def sampleDetour : List Patch :=
  [.modify "page.title" (.str "final") none, .delete "tags" none, .delete "page.lang" none]

/-- The patches below the page lead there as well, but the changes are only two. -/
theorem sample_minimal :
    (Fields.keys sampleDraft).Nodup ∧ (Fields.keys sampleFinal).Nodup ∧
      (replay (.obj sampleDraft) sampleDetour).same (.obj sampleFinal) = true ∧
      (changes (.obj sampleDraft) (.obj sampleFinal)).map Patch.path = ["page", "tags"] ∧
      (changes (.obj sampleDraft) (.obj sampleFinal)).length ≤ sampleDetour.length := by
  have hold : (Fields.keys sampleDraft).Nodup := by decide
  have hnew : (Fields.keys sampleFinal).Nodup := by decide
  have hleads : (replay (.obj sampleDraft) sampleDetour).same (.obj sampleFinal) = true := by
    decide +kernel
  exact ⟨hold, hnew, hleads, by decide +kernel, (changes_minimal hold hnew).1 _ hleads⟩

end Outbox.Snapshot
