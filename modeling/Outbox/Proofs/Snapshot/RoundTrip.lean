import Outbox.Proofs.Json.Normal
import Outbox.Snapshot.Changes
import Outbox.Snapshot.Replay

/-!
# Replaying the changes between two snapshots

The changes between two objects have a patch for each key on which they differ, and the patch has
the new value. But a path is taken apart at its points, so a patch for a key with a point goes below
another key and never reaches its own. Replaying the changes leads to the new object exactly when no
key on which the two differ has a point (`Snapshot.same_replay_changes_iff`).

* `Snapshot.of_mem_changes`, `Snapshot.exists_mem_changes`: the patches among the changes.
* `Snapshot.get?_replayOne`: a patch touches no key but the first one of its path, and without a
  point this is the path.
* `Snapshot.get?_foldl_replayOne_of_not_mem`: where no patch enters, no value changes.
* `Snapshot.get?_foldl_replayOne`: where all patches for a key agree, they settle its value.
* `Snapshot.get?_foldl_of_perm_changes`: what the changes do to the keys of any object.
-/

namespace Outbox.Snapshot

variable {old new fs : Fields Json} {key : String}

/-! ## Changes -/

/-- Two objects differ on a key: one of them lacks it, or they have different values there. -/
def Differ (old new : Fields Json) (key : String) : Prop :=
  Json.sameAt (Fields.get? key old) (Fields.get? key new) = false

instance (old new : Fields Json) (key : String) : Decidable (Differ old new key) :=
  inferInstanceAs (Decidable (Json.sameAt (Fields.get? key old) (Fields.get? key new) = false))

/-- Objects differ only on keys that one of them has. -/
theorem Differ.mem_keys (h : Differ old new key) : key ∈ Fields.keys old ++ Fields.keys new := by
  by_contra hneither
  rw [List.mem_append, not_or, ← Fields.get?_eq_none_iff, ← Fields.get?_eq_none_iff] at hneither
  unfold Differ at h
  rw [hneither.1, hneither.2] at h
  cases h

theorem changes_obj (old new : Fields Json) :
    changes (.obj old) (.obj new) =
      new.filterMap (writeChange old) ++ old.filterMap (deleteChange new) := rfl

theorem of_writeChange {f : String × Json} {p : Patch} (h : writeChange old f = some p) :
    p.path = f.1 ∧ p.value? = some f.2 ∧
      Json.sameAt (Fields.get? f.1 old) (some f.2) = false := by
  unfold writeChange at h
  split at h
  · rename_i hnone
    cases h
    exact ⟨rfl, rfl, by rw [hnone]; rfl⟩
  · rename_i previous hprevious
    split at h
    · cases h
    · rename_i hsame
      cases h
      exact ⟨rfl, rfl, by rw [hprevious]; exact Bool.not_eq_true _ ▸ hsame⟩

theorem of_deleteChange {f : String × Json} {p : Patch} (h : deleteChange new f = some p) :
    p.path = f.1 ∧ p.value? = none ∧ Fields.get? f.1 new = none := by
  unfold deleteChange Fields.has at h
  split at h
  · cases h
  · rename_i hgone
    cases h
    exact ⟨rfl, rfl, Option.not_isSome_iff_eq_none.mp hgone⟩

/-- A patch among the changes writes the new value, or deletes what the new object lacks, and the
objects differ there. -/
theorem of_mem_changes (hnew : (Fields.keys new).Nodup) {p : Patch}
    (hp : p ∈ changes (.obj old) (.obj new)) :
    p.value? = Fields.get? p.path new ∧ Differ old new p.path := by
  unfold Differ
  rw [changes_obj, List.mem_append] at hp
  rcases hp with hp | hp
  · obtain ⟨⟨key, value⟩, hmem, hwrite⟩ := List.mem_filterMap.mp hp
    obtain ⟨hpath, hvalue, hdiffer⟩ := of_writeChange hwrite
    have hget := Fields.get?_of_mem hnew hmem
    rw [hpath, hvalue, hget]
    exact ⟨rfl, hdiffer⟩
  · obtain ⟨⟨key, value⟩, hmem, hdelete⟩ := List.mem_filterMap.mp hp
    obtain ⟨hpath, hvalue, hgone⟩ := of_deleteChange hdelete
    have hkey : key ∈ Fields.keys old := List.mem_map_of_mem (f := Prod.fst) hmem
    obtain ⟨previous, hprevious⟩ := Fields.mem_keys_iff.mp hkey
    rw [hpath, hvalue, hgone, hprevious]
    exact ⟨rfl, rfl⟩

/-- There is a patch for each key on which two objects differ. -/
theorem exists_mem_changes (h : Differ old new key) :
    ∃ p ∈ changes (.obj old) (.obj new), p.path = key := by
  unfold Differ at h
  cases hvalue : Fields.get? key new with
  | some value =>
    have hmem := Fields.mem_of_get? hvalue
    rw [hvalue] at h
    obtain ⟨p, hp, hpath⟩ : ∃ p, writeChange old (key, value) = some p ∧ p.path = key := by
      unfold writeChange
      cases hprevious : Fields.get? key old with
      | none => exact ⟨_, rfl, rfl⟩
      | some previous =>
        rw [hprevious] at h
        have hsame : ¬ previous.same value = true := Bool.not_eq_true _ ▸ h
        exact ⟨_, if_neg hsame, rfl⟩
    exact ⟨p, List.mem_append_left _ (List.mem_filterMap.mpr ⟨_, hmem, hp⟩), hpath⟩
  | none =>
    rw [hvalue] at h
    cases hprevious : Fields.get? key old with
    | none =>
      rw [hprevious] at h
      cases h
    | some previous =>
      have hmem := Fields.mem_of_get? hprevious
      have hp : deleteChange new (key, previous) = some (.delete key (some previous)) := by
        unfold deleteChange Fields.has
        rw [hvalue]
        rfl
      exact ⟨_, List.mem_append_right _ (List.mem_filterMap.mpr ⟨_, hmem, hp⟩), rfl⟩

/-- **Nothing changes between objects that are the same.** -/
theorem changes_eq_nil_iff (hold : (Fields.keys old).Nodup) (hnew : (Fields.keys new).Nodup) :
    changes (.obj old) (.obj new) = [] ↔ (Json.obj old).same (.obj new) = true := by
  rw [Json.same_obj_iff hold hnew, List.eq_nil_iff_forall_not_mem]
  constructor
  · intro hnone key
    by_contra hdiffer
    have hdiffer : Differ old new key := eq_false_of_ne_true hdiffer
    obtain ⟨p, hp, -⟩ := exists_mem_changes hdiffer
    exact hnone p hp
  · intro hall p hp
    have hdiffer := (of_mem_changes hnew hp).2
    unfold Differ at hdiffer
    rw [hall p.path] at hdiffer
    cases hdiffer

/-! ## Paths -/

theorem splitPoints_of_not_mem {cs : List Char} (h : '.' ∉ cs) : splitPoints cs = [cs] := by
  induction cs with
  | nil => rfl
  | cons c cs ih =>
    obtain ⟨hc, hcs⟩ := List.ne_and_not_mem_of_not_mem_cons h
    unfold splitPoints
    rw [if_neg (Ne.symm hc), ih hcs]

theorem splitPoints_ne_nil (cs : List Char) : splitPoints cs ≠ [] := by
  cases cs with
  | nil => exact nofun
  | cons c cs =>
    unfold splitPoints
    split
    · exact nofun
    · split <;> exact nofun

/-- The pieces have no points. -/
theorem not_mem_of_mem_splitPoints {cs piece : List Char} (h : piece ∈ splitPoints cs) :
    '.' ∉ piece := by
  induction cs generalizing piece with
  | nil =>
    rw [List.mem_singleton.mp h]
    exact List.not_mem_nil
  | cons c cs ih =>
    unfold splitPoints at h
    split at h
    · rcases List.mem_cons.mp h with rfl | h
      · exact List.not_mem_nil
      · exact ih h
    · rename_i hc
      split at h
      · rename_i first pieces hpieces
        rw [hpieces] at ih
        rcases List.mem_cons.mp h with rfl | h
        · exact List.not_mem_cons_of_ne_of_not_mem (Ne.symm hc) (ih List.mem_cons_self)
        · exact ih (List.mem_cons_of_mem _ h)
      · rw [List.mem_singleton.mp h, List.mem_singleton]
        exact Ne.symm hc

theorem segments_ne_nil (path : String) : segments path ≠ [] :=
  mt List.map_eq_nil_iff.mp (splitPoints_ne_nil _)

/-- A path without points is a key. -/
theorem segments_of_not_mem {path : String} (h : '.' ∉ path.toList) : segments path = [path] := by
  unfold segments
  rw [splitPoints_of_not_mem h, List.map_singleton, String.ofList_toList]

/-- A key with a point is in no path. -/
theorem not_mem_segments {path : String} (h : '.' ∈ key.toList) : key ∉ segments path := by
  intro hkey
  obtain ⟨piece, hpiece, rfl⟩ := List.mem_map.mp hkey
  rw [String.toList_ofList] at h
  exact not_mem_of_mem_splitPoints hpiece h

/-- The key at which a patch enters an object. -/
def topKey (p : Patch) : String := (segments p.path).headD ""

theorem topKey_mem_segments (p : Patch) : topKey p ∈ segments p.path := by
  unfold topKey
  obtain ⟨first, path, hkeys⟩ := List.exists_cons_of_ne_nil (segments_ne_nil p.path)
  rw [hkeys]
  exact List.mem_cons_self

/-! ## Replaying -/

theorem get?_lastChange (last : String) (value : Option Json) (fs : Fields Json) (key : String) :
    Fields.get? key (lastChange last value fs) =
      if last = key then value else Fields.get? key fs := by
  unfold lastChange
  cases value with
  | none => exact Fields.get?_erase last key fs
  | some value => exact Fields.get?_put last key value fs

/-- A path changes the value of its first key only. -/
theorem get?_changeAt {change : Fields Json → Fields Json} {keys : List String}
    {fs fs' : Fields Json} (h : changeAt change keys fs = some fs') (hkey : keys.head? ≠ some key)
    (hchange : keys = [] → Fields.get? key (change fs) = Fields.get? key fs) :
    Fields.get? key fs' = Fields.get? key fs := by
  cases keys with
  | nil =>
    cases h
    exact hchange rfl
  | cons first path =>
    have hfirst : first ≠ key := fun heq => hkey (congrArg some heq)
    unfold changeAt at h
    split at h
    · cases h
    · split at h
      · cases h
      · cases h
        rw [Fields.get?_put, if_neg hfirst]

theorem nodup_keys_changeAt {change : Fields Json → Fields Json} {keys : List String}
    {fs fs' : Fields Json} (h : changeAt change keys fs = some fs')
    (hchange : (Fields.keys (change fs)).Nodup) (hfs : (Fields.keys fs).Nodup) :
    (Fields.keys fs').Nodup := by
  cases keys with
  | nil =>
    cases h
    exact hchange
  | cons first path =>
    unfold changeAt at h
    split at h
    · cases h
    · split at h
      · cases h
      · cases h
        exact Fields.nodup_keys_put first _ hfs

/-- **A patch touches no key but its first one.** -/
theorem get?_replayOne {p : Patch} (h : topKey p ≠ key) :
    Fields.get? key (replayOne fs p) = Fields.get? key fs := by
  obtain ⟨first, path, hkeys⟩ := List.exists_cons_of_ne_nil (segments_ne_nil p.path)
  have hfirst : first ≠ key := by
    unfold topKey at h
    rw [hkeys] at h
    exact h
  unfold replayOne
  rw [hkeys]
  simp only
  cases hchanged : changeAt (lastChange ((first :: path).getLastD "") p.value?)
      (first :: path).dropLast fs with
  | none => rfl
  | some fs' =>
    cases path with
    | nil =>
      refine get?_changeAt hchanged nofun fun _ => ?_
      rw [get?_lastChange]
      exact if_neg hfirst
    | cons next path =>
      refine get?_changeAt hchanged (fun heq => hfirst (Option.some.inj heq)) fun hnil => ?_
      cases hnil

/-- A patch without points in its path changes the value at its path. -/
theorem replayOne_of_not_mem {p : Patch} (h : '.' ∉ p.path.toList) :
    replayOne fs p = lastChange p.path p.value? fs := by
  unfold replayOne
  rw [segments_of_not_mem h]
  rfl

theorem nodup_keys_lastChange (last : String) (value : Option Json) (h : (Fields.keys fs).Nodup) :
    (Fields.keys (lastChange last value fs)).Nodup := by
  unfold lastChange
  cases value with
  | none => exact Fields.nodup_keys_erase last h
  | some value => exact Fields.nodup_keys_put last value h

theorem nodup_keys_replayOne (p : Patch) (h : (Fields.keys fs).Nodup) :
    (Fields.keys (replayOne fs p)).Nodup := by
  unfold replayOne
  simp only
  cases hchanged : changeAt (lastChange ((segments p.path).getLastD "") p.value?)
      (segments p.path).dropLast fs with
  | none => exact h
  | some fs' => exact nodup_keys_changeAt hchanged (nodup_keys_lastChange _ _ h) h

/-! ## Replaying many patches -/

theorem replay_obj (fs : Fields Json) (patches : List Patch) :
    replay (.obj fs) patches = .obj (patches.foldl replayOne fs) := rfl

theorem nodup_keys_foldl_replayOne (patches : List Patch) (h : (Fields.keys fs).Nodup) :
    (Fields.keys (patches.foldl replayOne fs)).Nodup := by
  induction patches generalizing fs with
  | nil => exact h
  | cons p patches ih => exact ih (nodup_keys_replayOne p h)

/-- Patches that all enter at other keys leave the value of a key as it is. -/
theorem get?_foldl_replayOne_of_not_mem {patches : List Patch} (h : key ∉ patches.map topKey)
    (fs : Fields Json) : Fields.get? key (patches.foldl replayOne fs) = Fields.get? key fs := by
  induction patches generalizing fs with
  | nil => rfl
  | cons p patches ih =>
    obtain ⟨hp, hrest⟩ := List.ne_and_not_mem_of_not_mem_cons h
    rw [List.foldl_cons, ih hrest, get?_replayOne (Ne.symm hp)]

/-- No patches reach a key with a point. -/
theorem get?_foldl_replayOne_of_mem (patches : List Patch) (h : '.' ∈ key.toList) :
    Fields.get? key (patches.foldl replayOne fs) = Fields.get? key fs := by
  refine get?_foldl_replayOne_of_not_mem (fun hkey => ?_) fs
  obtain ⟨p, -, rfl⟩ := List.mem_map.mp hkey
  exact not_mem_segments h (topKey_mem_segments p)

/-- **Patches without points that agree on a key settle its value**, if there are any for it. -/
theorem get?_foldl_replayOne {patches : List Patch} {value : Option Json}
    (hplain : ∀ p ∈ patches, '.' ∉ p.path.toList)
    (hagree : ∀ p ∈ patches, p.path = key → p.value? = value)
    (hsome : Fields.get? key fs = value ∨ ∃ p ∈ patches, p.path = key) :
    Fields.get? key (patches.foldl replayOne fs) = value := by
  induction patches generalizing fs with
  | nil =>
    rcases hsome with hvalue | ⟨p, hp, -⟩
    · exact hvalue
    · cases hp
  | cons p patches ih =>
    obtain ⟨hp, hpatches⟩ := List.forall_mem_cons.mp hplain
    obtain ⟨hvalue, hvalues⟩ := List.forall_mem_cons.mp hagree
    rw [List.foldl_cons]
    -- Either the value is right after this patch, or a later one puts it right.
    refine ih hpatches hvalues ?_
    rw [replayOne_of_not_mem hp, get?_lastChange]
    by_cases hkey : p.path = key
    · rw [if_pos hkey]
      exact Or.inl (hvalue hkey)
    · rw [if_neg hkey]
      rcases hsome with hbefore | ⟨q, hq, hpath⟩
      · exact Or.inl hbefore
      · rcases List.mem_cons.mp hq with rfl | hq
        · exact absurd hpath hkey
        · exact Or.inr ⟨q, hq, hpath⟩

/-! ## The round trip -/

/-- **Replayed on any object, the changes write what is different**, in whatever order, and leave
the rest as it is there. -/
theorem get?_foldl_of_perm_changes (hnew : (Fields.keys new).Nodup)
    (hplain : ∀ key, Differ old new key → '.' ∉ key.toList) {patches : List Patch}
    (hperm : patches.Perm (changes (.obj old) (.obj new))) (fs : Fields Json) (key : String) :
    Fields.get? key (patches.foldl replayOne fs) =
      if Differ old new key then Fields.get? key new else Fields.get? key fs := by
  have hmem : ∀ p ∈ patches, p.value? = Fields.get? p.path new ∧ Differ old new p.path :=
    fun p hp => of_mem_changes hnew (hperm.mem_iff.mp hp)
  have hpaths : ∀ p ∈ patches, '.' ∉ p.path.toList := fun p hp => hplain p.path (hmem p hp).2
  split
  · rename_i hdiffer
    obtain ⟨p, hp, hpath⟩ := exists_mem_changes hdiffer
    refine get?_foldl_replayOne hpaths ?_ (Or.inr ⟨p, hperm.mem_iff.mpr hp, hpath⟩)
    rintro p hp rfl
    exact (hmem p hp).1
  · -- There is no patch for the key.
    rename_i hdiffer
    refine get?_foldl_replayOne hpaths ?_ (Or.inl rfl)
    rintro p hp rfl
    exact absurd (hmem p hp).2 hdiffer

theorem get?_foldl_changes (hnew : (Fields.keys new).Nodup)
    (hplain : ∀ key, Differ old new key → '.' ∉ key.toList) (fs : Fields Json) (key : String) :
    Fields.get? key ((changes (.obj old) (.obj new)).foldl replayOne fs) =
      if Differ old new key then Fields.get? key new else Fields.get? key fs :=
  get?_foldl_of_perm_changes hnew hplain (List.Perm.refl _) fs key

/-- Replayed in whatever order, the changes agree with the new object on all keys. -/
theorem forall_sameAt_of_perm_changes (hnew : (Json.obj new).WellFormed)
    (hplain : ∀ key, Differ old new key → '.' ∉ key.toList) {patches : List Patch}
    (hperm : patches.Perm (changes (.obj old) (.obj new))) (key : String) :
    Json.sameAt (Fields.get? key (patches.foldl replayOne old)) (Fields.get? key new) = true := by
  rw [get?_foldl_of_perm_changes (Json.wellFormed_obj_iff.mp hnew).1 hplain hperm]
  split
  · exact Json.sameAt_refl (Json.wellFormed_get? hnew)
  · rename_i hdiffer
    exact Bool.not_eq_false _ ▸ hdiffer

/-- The replayed changes agree with the new object on all keys, if no key on which the old one
differs has a point, and only then. -/
theorem forall_sameAt_iff (old : Fields Json) (hnew : (Json.obj new).WellFormed) :
    (∀ key, Json.sameAt
        (Fields.get? key ((changes (.obj old) (.obj new)).foldl replayOne old))
        (Fields.get? key new) = true) ↔
      ∀ key, Differ old new key → '.' ∉ key.toList := by
  constructor
  · intro hsame key hdiffer hpoint
    -- No patch reaches the key, so the difference is still there.
    have hkept := hsame key
    rw [get?_foldl_replayOne_of_mem _ hpoint, hdiffer] at hkept
    cases hkept
  · intro hplain
    exact forall_sameAt_of_perm_changes hnew hplain (List.Perm.refl _)

/-- **The changes between two objects lead from the one to the other** if no key on which they
differ has a point, and only then; and exactly then nothing is left to change. -/
theorem same_replay_changes_iff (hold : (Json.obj old).WellFormed)
    (hnew : (Json.obj new).WellFormed) :
    ((replay (.obj old) (changes (.obj old) (.obj new))).same (.obj new) = true ↔
        ∀ key, Differ old new key → '.' ∉ key.toList) ∧
      (changes (replay (.obj old) (changes (.obj old) (.obj new))) (.obj new) = [] ↔
        ∀ key, Differ old new key → '.' ∉ key.toList) := by
  have hiff := forall_sameAt_iff old hnew
  unfold Json.WellFormed at hold hnew
  have hkeys := nodup_keys_foldl_replayOne (changes (.obj old) (.obj new)) hold.1
  rw [replay_obj, changes_eq_nil_iff hkeys hnew.1]
  have hsame := (Json.same_obj_iff hkeys hnew.1).trans hiff
  exact ⟨hsame, hsame⟩

/-- A snapshot with a key that has a point. -/
def sampleOld : Fields Json := [("title", .str "draft"), ("v.1", .bool true)]

/-- The key with the point keeps its value. -/
def sampleNew : Fields Json := [("v.1", .bool true), ("title", .str "final"), ("pinned", .null)]

theorem wellFormed_samples : (Json.obj sampleOld).WellFormed ∧ (Json.obj sampleNew).WellFormed := by
  simp [sampleOld, sampleNew, Json.WellFormed, Json.WellFormedFields, Fields.keys]

theorem sample_round_trip :
    (Json.obj sampleOld).WellFormed ∧ (Json.obj sampleNew).WellFormed ∧
      (replay (.obj sampleOld) (changes (.obj sampleOld) (.obj sampleNew))).same
        (.obj sampleNew) = true ∧
      ∀ key, Differ sampleOld sampleNew key → '.' ∉ key.toList := by
  obtain ⟨hold, hnew⟩ := wellFormed_samples
  have hsame : (replay (.obj sampleOld) (changes (.obj sampleOld) (.obj sampleNew))).same
      (.obj sampleNew) = true := by decide +kernel
  exact ⟨hold, hnew, hsame, (same_replay_changes_iff hold hnew).1.mp hsame⟩

end Outbox.Snapshot
