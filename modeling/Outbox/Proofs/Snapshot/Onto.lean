import Outbox.Proofs.Snapshot.RoundTrip

/-!
# Replaying changes onto another snapshot

The changes between two objects can be replayed on any third one. Where the two differ it gets the
entry of the new one, or loses its own, and everywhere else it keeps what it has; a patch that adds
a key, changes it or deletes it does so whether or not the key is there
(`Snapshot.replay_changes_onto`).

The order of keys comes from two passes. The written keys that are missing go to the end in the
order of the new object (`Snapshot.keys_foldl_write`), and then the deleted ones are taken out
(`Snapshot.keys_foldl_delete`).
-/

namespace Outbox.Snapshot

variable {old new fs : Fields Json} {patches : List Patch}

/-! ## The paths of the changes -/

theorem writeChange_eq_none_iff {f : String × Json} :
    writeChange old f = none ↔ Json.sameAt (Fields.get? f.1 old) (some f.2) = true := by
  unfold writeChange
  cases Fields.get? f.1 old with
  | none => exact iff_of_false nofun Bool.false_ne_true
  | some previous => exact ite_eq_left_iff.trans (by simp [Json.sameAt])

/-- Of the keys of the new object, those on which the old one differs are written. -/
theorem paths_writes (hnew : (Fields.keys new).Nodup) :
    (new.filterMap (writeChange old)).map Patch.path =
      (Fields.keys new).filter (Differ old new ·) := by
  have hall : ∀ fs : Fields Json, (∀ f ∈ fs, Fields.get? f.1 new = some f.2) →
      (fs.filterMap (writeChange old)).map Patch.path =
        (Fields.keys fs).filter (Differ old new ·) := by
    intro fs hfs
    induction fs with
    | nil => rfl
    | cons f fs ih =>
      obtain ⟨hf, hrest⟩ := List.forall_mem_cons.mp hfs
      have hdiffer : Differ old new f.1 ↔ writeChange old f ≠ none := by
        unfold Differ
        rw [hf, Ne, writeChange_eq_none_iff, Bool.not_eq_true]
      rw [Fields.keys_cons, List.filter_cons]
      cases hwrite : writeChange old f with
      | none =>
        have hsame : ¬ Differ old new f.1 := fun h => hdiffer.mp h hwrite
        rw [List.filterMap_cons_none hwrite, if_neg (by simpa using hsame), ih hrest]
      | some p =>
        have hpath := (of_writeChange hwrite).1
        have hchanged : Differ old new f.1 := hdiffer.mpr (by simp [hwrite])
        rw [List.filterMap_cons_some hwrite, if_pos (by simpa using hchanged), List.map_cons,
          hpath, ih hrest]
  exact hall new fun f hf => Fields.get?_of_mem hnew hf

/-- Of the keys of the old object, those that the new one lacks are deleted. -/
theorem paths_deletes (old new : Fields Json) :
    (old.filterMap (deleteChange new)).map Patch.path =
      (Fields.keys old).filter (· ∉ Fields.keys new) := by
  induction old with
  | nil => rfl
  | cons f old ih =>
    rw [Fields.keys_cons, List.filter_cons]
    have hhas : Fields.has f.1 new = true ↔ f.1 ∈ Fields.keys new := by
      rw [Fields.has, Option.isSome_iff_ne_none, Ne, Fields.get?_eq_none_iff, not_not]
    by_cases hkey : f.1 ∈ Fields.keys new
    · have hkept : deleteChange new f = none := if_pos (hhas.mpr hkey)
      rw [List.filterMap_cons_none hkept, if_neg (by simpa using hkey), ih]
    · have hgone : deleteChange new f = some (.delete f.1 (some f.2)) := if_neg (mt hhas.mp hkey)
      rw [List.filterMap_cons_some hgone, if_pos (by simpa using hkey), List.map_cons, ih]
      rfl

/-- No two changes are for one key. -/
theorem nodup_paths_changes (hold : (Fields.keys old).Nodup) (hnew : (Fields.keys new).Nodup) :
    ((changes (.obj old) (.obj new)).map Patch.path).Nodup := by
  rw [changes_obj, List.map_append, paths_writes hnew, paths_deletes]
  refine (hnew.filter _).append (hold.filter _) fun key hwritten hdeleted => ?_
  have hgone : key ∉ Fields.keys new := of_decide_eq_true (List.mem_filter.mp hdeleted).2
  exact hgone (List.mem_filter.mp hwritten).1

/-! ## The order of keys -/

/-- **Keys that are written stay in their places or go to the end**, one after the other. -/
theorem keys_foldl_write (hplain : ∀ p ∈ patches, '.' ∉ p.path.toList)
    (hwrite : ∀ p ∈ patches, p.value? ≠ none) (hpaths : (patches.map Patch.path).Nodup)
    (fs : Fields Json) :
    Fields.keys (patches.foldl replayOne fs) =
      Fields.keys fs ++ (patches.map Patch.path).filter (· ∉ Fields.keys fs) := by
  induction patches generalizing fs with
  | nil => exact (List.append_nil _).symm
  | cons p patches ih =>
    obtain ⟨hp, hrest⟩ := List.forall_mem_cons.mp hplain
    obtain ⟨hvalue, hvalues⟩ := List.forall_mem_cons.mp hwrite
    obtain ⟨hfresh, hnodup⟩ := List.nodup_cons.mp hpaths
    obtain ⟨x, hx⟩ := Option.ne_none_iff_exists'.mp hvalue
    have hkeys : Fields.keys (replayOne fs p) =
        if p.path ∈ Fields.keys fs then Fields.keys fs else Fields.keys fs ++ [p.path] := by
      rw [replayOne_of_not_mem hp, hx]
      exact Fields.keys_put p.path x fs
    rw [List.foldl_cons, ih hrest hvalues hnodup, hkeys, List.map_cons, List.filter_cons]
    by_cases hmem : p.path ∈ Fields.keys fs
    · rw [if_pos hmem, if_neg (by simpa using hmem)]
    · rw [if_neg hmem, if_pos (by simpa using hmem), List.append_assoc, List.singleton_append]
      -- No later patch is for this key, so it is missing in none of them.
      have hlater : (patches.map Patch.path).filter (· ∉ Fields.keys fs ++ [p.path]) =
          (patches.map Patch.path).filter (· ∉ Fields.keys fs) := by
        refine List.filter_congr fun key hkey => ?_
        have hne : key ≠ p.path := fun heq => hfresh (heq ▸ hkey)
        simp [hne]
      rw [hlater]

/-- **Keys that are deleted are taken out**, and the others stay in order. -/
theorem keys_foldl_delete (hplain : ∀ p ∈ patches, '.' ∉ p.path.toList)
    (hdelete : ∀ p ∈ patches, p.value? = none) (fs : Fields Json) :
    Fields.keys (patches.foldl replayOne fs) =
      (Fields.keys fs).filter (· ∉ patches.map Patch.path) := by
  induction patches generalizing fs with
  | nil => simp
  | cons p patches ih =>
    obtain ⟨hp, hrest⟩ := List.forall_mem_cons.mp hplain
    obtain ⟨hvalue, hvalues⟩ := List.forall_mem_cons.mp hdelete
    have hkeys : Fields.keys (replayOne fs p) = (Fields.keys fs).filter (· ≠ p.path) := by
      rw [replayOne_of_not_mem hp, hvalue]
      exact Fields.keys_erase p.path fs
    rw [List.foldl_cons, ih hrest hvalues, hkeys, List.filter_filter]
    refine List.filter_congr fun key _ => ?_
    by_cases hkey : key = p.path <;> simp [hkey]

/-! ## Any snapshot -/

/-- **The changes between two objects can be replayed onto any object**, if no key on which the two
differ has a point. On these keys the result has what the new object has, or nothing, and on the
others what it had. Its keys are those that it had, without those that only the old object has, and
behind them those of the different keys that it lacked, in the order of the new object. -/
theorem replay_changes_onto (hnew : (Fields.keys new).Nodup)
    (hplain : ∀ key, Differ old new key → '.' ∉ key.toList) (fs : Fields Json) :
    ∃ gs, replay (.obj fs) (changes (.obj old) (.obj new)) = .obj gs ∧
      (∀ key, Fields.get? key gs =
        if Differ old new key then Fields.get? key new else Fields.get? key fs) ∧
      Fields.keys gs =
        (Fields.keys fs).filter (fun key => ¬ (key ∈ Fields.keys old ∧ key ∉ Fields.keys new)) ++
          (Fields.keys new).filter (fun key => Differ old new key ∧ key ∉ Fields.keys fs) := by
  have hpaths : ∀ p ∈ changes (.obj old) (.obj new), '.' ∉ p.path.toList := fun p hp =>
    hplain p.path (of_mem_changes hnew hp).2
  rw [changes_obj] at hpaths
  obtain ⟨hwritten, hdeleted⟩ := List.forall_mem_append.mp hpaths
  have hwrites : ∀ p ∈ new.filterMap (writeChange old), p.value? ≠ none := by
    intro p hp
    obtain ⟨f, -, hwrite⟩ := List.mem_filterMap.mp hp
    rw [(of_writeChange hwrite).2.1]
    exact nofun
  have hdeletes : ∀ p ∈ old.filterMap (deleteChange new), p.value? = none := by
    intro p hp
    obtain ⟨f, -, hdelete⟩ := List.mem_filterMap.mp hp
    exact (of_deleteChange hdelete).2.1
  have hdistinct : ((new.filterMap (writeChange old)).map Patch.path).Nodup := by
    rw [paths_writes hnew]
    exact hnew.filter _
  refine ⟨(changes (.obj old) (.obj new)).foldl replayOne fs, rfl,
    get?_foldl_changes hnew hplain fs, ?_⟩
  rw [changes_obj, List.foldl_append, keys_foldl_delete hdeleted hdeletes,
    keys_foldl_write hwritten hwrites hdistinct, paths_writes hnew, paths_deletes,
    List.filter_append, List.filter_filter, List.filter_filter]
  congr 1
  · refine List.filter_congr fun key _ => ?_
    simp [List.mem_filter]
  · -- What the new object has is not deleted.
    refine List.filter_congr fun key hkey => ?_
    simp [List.mem_filter, hkey, and_comm]

/-- A snapshot that has the pin already, and no title. -/
def sampleOther : Fields Json := [("pinned", .bool true), ("v.1", .int 1), ("body", .str "text")]

/-- The key with the point is the same in both. -/
theorem plain_samples : ∀ key, Differ sampleOld sampleNew key → '.' ∉ key.toList := by
  have hall : ∀ key ∈ Fields.keys sampleOld ++ Fields.keys sampleNew,
      Differ sampleOld sampleNew key → '.' ∉ key.toList := by decide +kernel
  exact fun key hdiffer => hall key hdiffer.mem_keys hdiffer

/-- The pin is changed where it is, the title is added, and the key with the point stays. -/
theorem sample_onto :
    (Fields.keys sampleNew).Nodup ∧
      (∀ key, Differ sampleOld sampleNew key → '.' ∉ key.toList) ∧
      ∃ gs, replay (.obj sampleOther) (changes (.obj sampleOld) (.obj sampleNew)) = .obj gs ∧
        Fields.get? "pinned" gs = some .null ∧ Fields.get? "v.1" gs = some (.int 1) ∧
        Fields.keys gs = ["pinned", "v.1", "body", "title"] := by
  have hnew : (Fields.keys sampleNew).Nodup := by decide
  obtain ⟨gs, hgs, hvalues, hkeys⟩ := replay_changes_onto hnew plain_samples sampleOther
  refine ⟨hnew, plain_samples, gs, hgs, ?_, ?_, ?_⟩
  · rw [hvalues]
    decide +kernel
  · rw [hvalues]
    decide +kernel
  · rw [hkeys]
    decide +kernel

end Outbox.Snapshot
