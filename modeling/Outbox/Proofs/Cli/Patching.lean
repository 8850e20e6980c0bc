import Outbox.Proofs.Cli.Files
import Outbox.Proofs.Snapshot.Patch

/-!
# The patches that a command prints

What `diff` prints is what `patch` reads, if the printed value can be read back at all
(`Json.ReadsBack`; numbers that print inexactly and values nested too deeply cannot). The patches
lose only their null previous values on the way, so the second command prints what replaying the
patches of the first gives (`Cli.patch_of_diff`).
-/

namespace Outbox.Cli

/-- The snapshot in a file. -/
def snapshotOf (files : Files) (file : String) : Except Failure Json :=
  readFile files .whole Decode.value file

variable {files : Files} {file : String}

/-- No key is repeated in a snapshot. -/
theorem wellFormed_of_snapshotOf {j : Json} (h : snapshotOf files file = .ok j) : j.WellFormed := by
  obtain ⟨raw, hraw⟩ := of_readFile h
  cases hraw
  exact Json.wellFormed_normal raw

/-- Nor is one repeated in the patches between snapshots. -/
theorem wellFormed_changesOf {oldFile newFile : String} {old new : Json}
    (hold : snapshotOf files oldFile = .ok old) (hnew : snapshotOf files newFile = .ok new) :
    ∀ p ∈ Snapshot.changes old new, p.WellFormed := fun _ hp =>
  Snapshot.wellFormed_of_mem_changes (wellFormed_of_snapshotOf hold)
    (wellFormed_of_snapshotOf hnew) hp

/-- The program prints the patches between two snapshots. -/
theorem run_diff {args : List String} {oldFile newFile : String} {old new : Json}
    (hargs : Command.read? args = some (.diff oldFile newFile))
    (hold : snapshotOf files oldFile = .ok old) (hnew : snapshotOf files newFile = .ok new) :
    run args files =
      ⟨0, (Json.arr ((Snapshot.changes old new).map Patch.toJson)).pretty ++ "\n", none⟩ := by
  unfold snapshotOf at hold hnew
  unfold run
  simp only [hargs, Command.result, changesOfFiles, hold, hnew]
  rfl

/-- The program prints a snapshot after the patches in a file. -/
theorem run_patch {args : List String} {dataFile patchFile : String} {data : Json}
    {patches : List Patch} (hargs : Command.read? args = some (.patch dataFile patchFile))
    (hdata : snapshotOf files dataFile = .ok data)
    (hpatches : readFile files .whole (Decode.list Patch.decode) patchFile = .ok patches) :
    run args files = ⟨0, (Snapshot.replay data patches).pretty ++ "\n", none⟩ := by
  unfold snapshotOf at hdata
  unfold run
  simp only [hargs, Command.result, patchedFile, hdata, hpatches]
  rfl

/-- **Patches mean the same on paper.** Written and read, a list of patches loses its null previous
values and nothing else, and it does to every value what it did before. So a snapshot that is
patched with what the program printed as its changes is what replaying the changes makes of it, if
what was printed can be read back. -/
theorem patch_of_diff :
    (∀ patches : List Patch, (∀ p ∈ patches, p.WellFormed) →
      Decode.list Patch.decode (.arr (patches.map Patch.toJson)) =
          .ok (patches.map Patch.withoutNull) ∧
        ∀ data, Snapshot.replay data (patches.map Patch.withoutNull) =
          Snapshot.replay data patches) ∧
    ∀ files later diffArgs patchArgs oldFile newFile dataFile patchFile old new,
      Command.read? diffArgs = some (.diff oldFile newFile) →
      Command.read? patchArgs = some (.patch dataFile patchFile) →
      snapshotOf files oldFile = .ok old → snapshotOf files newFile = .ok new →
      (Json.arr ((Snapshot.changes old new).map Patch.toJson)).ReadsBack →
      snapshotOf later dataFile = .ok old →
      later patchFile = some (run diffArgs files).output.toUTF8 →
        (run diffArgs files).exit = 0 ∧
        run patchArgs later =
          ⟨0, (Snapshot.replay old (Snapshot.changes old new)).pretty ++ "\n", none⟩ := by
  constructor
  · intro patches hpatches
    exact ⟨Patch.decode_list hpatches, fun data => Snapshot.replay_withoutNull data patches⟩
  · intro files later diffArgs patchArgs oldFile newFile dataFile patchFile old new hdiff hpatch
      hold hnew hback hdata hprinted
    have hdiffRun := run_diff hdiff hold hnew
    rw [hdiffRun] at hprinted
    have hgood := wellFormed_changesOf hold hnew
    have hread := readFile_of_readsBack hback hprinted (Patch.decode_list hgood)
    refine ⟨by rw [hdiffRun], ?_⟩
    rw [run_patch hpatch hdata hread, Snapshot.replay_withoutNull]

/-! ## A null that becomes a list -/

/-- A snapshot with a null. -/
def nullBefore : Json := .obj [("a", .null), ("b", .nat 1)]

/-- Another one: the null has become a list, and the other entry is gone. -/
def listAfter : Json := .obj [("a", .arr [])]

/-- The two snapshots as files. -/
def nullFiles : Files
  | "old" => some nullBefore.compact.toUTF8
  | "new" => some listAfter.compact.toUTF8
  | _ => none

/-- The first snapshot and what has been printed of the changes as files. -/
def printedFiles : Files
  | "data" => some nullBefore.compact.toUTF8
  | "patches" => some (run ["diff", "old", "new"] nullFiles).output.toUTF8
  | _ => none

/-- The previous value of the null entry is lost on the way, and nothing depends on it. -/
theorem patch_of_diff_sample :
    (∀ p ∈ Snapshot.changes nullBefore listAfter, p.WellFormed) ∧
      Decode.list Patch.decode
          (.arr ((Snapshot.changes nullBefore listAfter).map Patch.toJson)) =
        .ok [.modify "a" (.arr []) none, .delete "b" (some (.nat 1))] ∧
      snapshotOf nullFiles "old" = .ok nullBefore ∧ snapshotOf nullFiles "new" = .ok listAfter ∧
      (Json.arr ((Snapshot.changes nullBefore listAfter).map Patch.toJson)).ReadsBack ∧
      snapshotOf printedFiles "data" = .ok nullBefore ∧
      (run ["diff", "old", "new"] nullFiles).exit = 0 ∧
      run ["patch", "data", "patches"] printedFiles = ⟨0, listAfter.pretty ++ "\n", none⟩ := by
  have hold : snapshotOf nullFiles "old" = .ok nullBefore := by decide +kernel
  have hnew : snapshotOf nullFiles "new" = .ok listAfter := by decide +kernel
  have hdata : snapshotOf printedFiles "data" = .ok nullBefore := by decide +kernel
  have hback : (Json.arr ((Snapshot.changes nullBefore listAfter).map Patch.toJson)).ReadsBack := by
    decide +kernel
  have hgood := wellFormed_changesOf hold hnew
  obtain ⟨hcodec, hcommands⟩ := patch_of_diff
  have hchanges : (Snapshot.changes nullBefore listAfter).map Patch.withoutNull =
      [.modify "a" (.arr []) none, .delete "b" (some (.nat 1))] := by decide +kernel
  have hreplay : Snapshot.replay nullBefore (Snapshot.changes nullBefore listAfter) =
      listAfter := by decide +kernel
  obtain ⟨hexit, hrun⟩ := hcommands nullFiles printedFiles ["diff", "old", "new"]
    ["patch", "data", "patches"] "old" "new" "data" "patches" nullBefore listAfter
    (by decide +kernel) (by decide +kernel) hold hnew hback hdata rfl
  refine ⟨hgood, ?_, hold, hnew, hback, hdata, hexit, ?_⟩
  · rw [(hcodec _ hgood).1, hchanges]
  · rw [hrun, hreplay]

end Outbox.Cli
