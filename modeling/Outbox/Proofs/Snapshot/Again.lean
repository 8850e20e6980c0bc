import Outbox.Proofs.Snapshot.Edits

/-!
# Replaying patches again

Replaying any patches on what they led to changes nothing but the order of keys
(`Snapshot.same_replay_replay`), although a patch that was skipped the first time may not be skipped
the second time, and the other way round. Where a path ends, the patches after it start from its
value in both rounds, so the first round has no part in what the second one leads to
(`Snapshot.alike_twice`).
-/

namespace Outbox.Snapshot

variable {start : Option Json} {edits : List Edit}

theorem rewriteAll_append (edits others : List Edit) (start : Option Json) :
    rewriteAll (edits ++ others) start = rewriteAll others (rewriteAll edits start) :=
  List.foldl_append

/-- Editing twice does what editing once does. -/
theorem alike_twice : Alike fun edits once => edits = once ++ once where
  mem h e := by
    subst h
    rw [List.mem_append, or_self]
  ends h hend start := by
    subst h
    rw [rewriteAll_append, rewriteAll_of_end hend _ start]
  rests h key := by
    subst h
    exact List.filterMap_append

/-- **Editing twice is editing once.** -/
theorem sameAt_rewriteAll_rewriteAll (hedits : ∀ e ∈ edits, ∀ x ∈ e.2, x.WellFormed)
    (hstart : ∀ x ∈ start, x.WellFormed) :
    Json.sameAt (rewriteAll edits (rewriteAll edits start)) (rewriteAll edits start) = true := by
  rw [← rewriteAll_append]
  exact alike_twice.sameAt_rewriteAll rfl hedits hstart

/-- **Replaying patches again changes nothing**, but the order of keys: whatever the patches are,
and whatever they are replayed on. -/
theorem same_replay_replay {data : Json} {patches : List Patch} (hdata : data.WellFormed)
    (hpatches : ∀ p ∈ patches, ∀ x ∈ p.value?, x.WellFormed) :
    (replay (replay data patches) patches).same (replay data patches) = true := by
  have honce := replay_eq data patches
  have htwice : some (replay (replay data patches) patches) =
      rewriteAll (patches.map editOf) (some (replay data patches)) :=
    replay_eq (replay data patches) patches
  have hedits : ∀ e ∈ patches.map editOf, ∀ x ∈ e.2, x.WellFormed :=
    List.forall_mem_map.mpr hpatches
  have hstart : ∀ x ∈ some (Json.obj data.fields), x.WellFormed := by
    rintro x ⟨⟩
    exact Json.wellFormed_fields hdata
  have hsame := sameAt_rewriteAll_rewriteAll hedits hstart
  rw [← honce, ← htwice] at hsame
  exact hsame

/-- The first patch is skipped where the page is a number, and the second time it is not. -/
def samplePatches : List Patch :=
  [.add "page.title" (.str "draft"), .delete "tags" none, .add "tags" (.arr []),
    .modify "page" (.obj [("lang", .null)]) none, .add "page.lang.code" (.str "en"),
    .add "note" (.bool true)]

/-- The tags go to the end the second time, and nothing else is different. -/
theorem sample_replay_replay :
    (Json.obj [("page", .int 5)]).WellFormed ∧
      (∀ p ∈ samplePatches, ∀ x ∈ p.value?, x.WellFormed) ∧
      (replay (.obj [("page", .int 5)]) samplePatches).fields.keys = ["page", "tags", "note"] ∧
      (replay (replay (.obj [("page", .int 5)]) samplePatches) samplePatches).fields.keys =
        ["page", "note", "tags"] ∧
      (replay (replay (.obj [("page", .int 5)]) samplePatches) samplePatches).same
        (replay (.obj [("page", .int 5)]) samplePatches) = true := by
  have hdata : (Json.obj [("page", .int 5)]).WellFormed := by
    simp [Json.int, Json.WellFormed, Json.WellFormedFields, Fields.keys]
  have hpatches : ∀ p ∈ samplePatches, ∀ x ∈ p.value?, x.WellFormed := by
    simp [samplePatches, Patch.value?, Json.WellFormed, Json.WellFormedFields,
      Json.WellFormedItems, Fields.keys]
  exact ⟨hdata, hpatches, by decide +kernel, by decide +kernel,
    same_replay_replay hdata hpatches⟩

end Outbox.Snapshot
