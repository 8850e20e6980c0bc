import Outbox.Proofs.Snapshot.Onto

/-!
# Changes and the way back

A patch that knows the previous value can be inverted: what was added is deleted, what was deleted
is added, and a changed value is changed back. The changes between two objects all know it, and
their inverses are the changes the other way round, up to their order (`Snapshot.changes_inverse`).
Replaying ignores previous values, so this is what they are good for: the changes alone are enough
to get the old object back from the new one.

Whether there is a patch for a key, and which one, depends only on what the two objects have at
this key (`Snapshot.mem_changes_iff`). So the patches are inverted one by one
(`Snapshot.changeOf_swap`).
-/

namespace Outbox

namespace Patch

variable {p q : Patch}

/-- The patch that takes this one back, if the previous value is known. -/
def inverse? : Patch → Option Patch
  | .add path value => some (.delete path (some value))
  | .modify path value (some previous) => some (.modify path previous (some value))
  | .modify _ _ none => none
  | .delete path (some previous) => some (.add path previous)
  | .delete _ none => none

/-- An inverse is for the same key, and inverting it leads back. -/
theorem of_inverse? (h : p.inverse? = some q) : q.path = p.path ∧ q.inverse? = some p := by
  cases p with
  | add path value =>
    cases h
    exact ⟨rfl, rfl⟩
  | modify path value oldValue | delete path oldValue =>
    cases oldValue with
    | none => cases h
    | some previous =>
      cases h
      exact ⟨rfl, rfl⟩

end Patch

namespace Snapshot

variable {old new : Fields Json} {before after : Option Json} {key : String} {p : Patch}

/-! ## The change of one key -/

/-- The patch for a key, from what two objects have there. -/
def changeOf (key : String) : Option Json → Option Json → Option Patch
  | none, none => none
  | none, some value => some (.add key value)
  | some previous, some value =>
    if previous.same value then none else some (.modify key value (some previous))
  | some previous, none => some (.delete key (some previous))

/-- The patch for a key has this path, and knows the previous value. -/
theorem of_changeOf (h : changeOf key before after = some p) :
    p.path = key ∧ ∃ q, p.inverse? = some q := by
  unfold changeOf at h
  split at h
  · cases h
  · cases h
    exact ⟨rfl, _, rfl⟩
  · split at h
    · cases h
    · cases h
      exact ⟨rfl, _, rfl⟩
  · cases h
    exact ⟨rfl, _, rfl⟩

theorem writeChange_eq (old : Fields Json) (key : String) (value : Json) :
    writeChange old (key, value) = changeOf key (Fields.get? key old) (some value) := by
  unfold writeChange
  cases Fields.get? key old <;> rfl

theorem deleteChange_eq_some_iff {f : String × Json} :
    deleteChange new f = some p ↔
      Fields.get? f.1 new = none ∧ changeOf f.1 (some f.2) none = some p := by
  unfold deleteChange Fields.has
  cases Fields.get? f.1 new with
  | none => exact (and_iff_right rfl).symm
  | some value => exact iff_of_false nofun nofun

/-- **Two objects change key by key.** -/
theorem mem_changes_iff (hold : (Fields.keys old).Nodup) (hnew : (Fields.keys new).Nodup) :
    p ∈ changes (.obj old) (.obj new) ↔
      changeOf p.path (Fields.get? p.path old) (Fields.get? p.path new) = some p := by
  rw [changes_obj, List.mem_append, List.mem_filterMap, List.mem_filterMap]
  constructor
  · rintro (⟨⟨key, value⟩, hmem, hwrite⟩ | ⟨⟨key, previous⟩, hmem, hdelete⟩)
    · rw [writeChange_eq] at hwrite
      rw [(of_changeOf hwrite).1, Fields.get?_of_mem hnew hmem]
      exact hwrite
    · obtain ⟨hgone, hchange⟩ := deleteChange_eq_some_iff.mp hdelete
      rw [(of_changeOf hchange).1, Fields.get?_of_mem hold hmem, hgone]
      exact hchange
  · intro hchange
    cases hvalue : Fields.get? p.path new with
    | some value =>
      refine Or.inl ⟨(p.path, value), Fields.mem_of_get? hvalue, ?_⟩
      rw [writeChange_eq, ← hvalue]
      exact hchange
    | none =>
      rw [hvalue] at hchange
      cases hprevious : Fields.get? p.path old with
      | none =>
        rw [hprevious] at hchange
        cases hchange
      | some previous =>
        rw [hprevious] at hchange
        exact Or.inr ⟨(p.path, previous), Fields.mem_of_get? hprevious,
          deleteChange_eq_some_iff.mpr ⟨hvalue, hchange⟩⟩

/-- **The change the other way round is the inverse.** -/
theorem changeOf_swap (hbefore : ∀ x ∈ before, x.WellFormed) (hafter : ∀ x ∈ after, x.WellFormed)
    (key : String) :
    changeOf key after before = (changeOf key before after).bind Patch.inverse? := by
  cases before with
  | none => cases after <;> rfl
  | some previous =>
    cases after with
    | none => rfl
    | some value =>
      have hcomm : previous.same value = value.same previous := Json.sameAt_comm hbefore hafter
      unfold changeOf
      simp only
      rw [hcomm]
      split <;> rfl

/-! ## All changes -/

/-- The inverse of a change is a change the other way round. -/
theorem mem_changes_swap (hold : (Json.obj old).WellFormed) (hnew : (Json.obj new).WellFormed)
    {q : Patch} :
    q ∈ changes (.obj new) (.obj old) ↔
      ∃ p ∈ changes (.obj old) (.obj new), p.inverse? = some q := by
  have holdKeys := (Json.wellFormed_obj_iff.mp hold).1
  have hnewKeys := (Json.wellFormed_obj_iff.mp hnew).1
  rw [mem_changes_iff hnewKeys holdKeys,
    changeOf_swap (Json.wellFormed_get? hold) (Json.wellFormed_get? hnew), Option.bind_eq_some_iff]
  constructor
  · rintro ⟨p, hchange, hinverse⟩
    refine ⟨p, (mem_changes_iff holdKeys hnewKeys).mpr ?_, hinverse⟩
    rw [(of_changeOf hchange).1]
    exact hchange
  · rintro ⟨p, hp, hinverse⟩
    rw [(Patch.of_inverse? hinverse).1]
    exact ⟨p, (mem_changes_iff holdKeys hnewKeys).mp hp, hinverse⟩

theorem nodup_changes (hold : (Fields.keys old).Nodup) (hnew : (Fields.keys new).Nodup) :
    (changes (.obj old) (.obj new)).Nodup :=
  (nodup_paths_changes hold hnew).of_map Patch.path

/-- **The inverses of the changes are the changes the other way round**, in some order. -/
theorem perm_inverses (hold : (Json.obj old).WellFormed) (hnew : (Json.obj new).WellFormed) :
    ((changes (.obj old) (.obj new)).filterMap Patch.inverse?).Perm
      (changes (.obj new) (.obj old)) := by
  have holdKeys := (Json.wellFormed_obj_iff.mp hold).1
  have hnewKeys := (Json.wellFormed_obj_iff.mp hnew).1
  have hinjective : ∀ p p' q : Patch, q ∈ p.inverse? → q ∈ p'.inverse? → p = p' := by
    intro p p' q hp hp'
    have hback := (Patch.of_inverse? hp).2
    rw [(Patch.of_inverse? hp').2] at hback
    exact (Option.some.inj hback).symm
  have hnodup := (nodup_changes holdKeys hnewKeys).filterMap hinjective
  refine (List.perm_ext_iff_of_nodup hnodup (nodup_changes hnewKeys holdKeys)).mpr fun q => ?_
  rw [List.mem_filterMap, mem_changes_swap hold hnew]

theorem differ_comm (hold : (Json.obj old).WellFormed) (hnew : (Json.obj new).WellFormed) :
    Differ new old key ↔ Differ old new key := by
  unfold Differ
  rw [Json.sameAt_comm (Json.wellFormed_get? hold) (Json.wellFormed_get? hnew)]

/-- **The changes between two objects lead back as well.** Each of them has an inverse, and the
inverses are the changes the other way round, up to their order. So if no key on which the objects
differ has a point, replaying the inverses on the new object gives the old one. -/
theorem changes_inverse (hold : (Json.obj old).WellFormed) (hnew : (Json.obj new).WellFormed) :
    ∃ inverses, (changes (.obj old) (.obj new)).map Patch.inverse? = inverses.map some ∧
      inverses.Perm (changes (.obj new) (.obj old)) ∧
      ((∀ key, Differ old new key → '.' ∉ key.toList) →
        (replay (.obj new) inverses).same (.obj old) = true) := by
  have holdKeys := (Json.wellFormed_obj_iff.mp hold).1
  have hnewKeys := (Json.wellFormed_obj_iff.mp hnew).1
  have hperm := perm_inverses hold hnew
  refine ⟨_, ?_, hperm, fun hplain => ?_⟩
  · rw [List.map_filterMap, ← List.filterMap_eq_map]
    refine List.filterMap_congr fun p hp => ?_
    obtain ⟨-, q, hq⟩ := of_changeOf ((mem_changes_iff holdKeys hnewKeys).mp hp)
    rw [Function.comp_apply, hq]
    rfl
  · have hplain' : ∀ key, Differ new old key → '.' ∉ key.toList := fun key hdiffer =>
      hplain key ((differ_comm hold hnew).mp hdiffer)
    rw [replay_obj, Json.same_obj_iff (nodup_keys_foldl_replayOne _ hnewKeys) holdKeys]
    exact forall_sameAt_of_perm_changes hold hplain' hperm

/-- The title is changed back and the pin is deleted, which leads back to the old object. -/
theorem sample_inverse :
    (Json.obj sampleOld).WellFormed ∧ (Json.obj sampleNew).WellFormed ∧
      (∀ key, Differ sampleOld sampleNew key → '.' ∉ key.toList) ∧
      ∃ inverses, (changes (.obj sampleOld) (.obj sampleNew)).map Patch.inverse? =
          inverses.map some ∧
        inverses = [.modify "title" (.str "draft") (some (.str "final")),
          .delete "pinned" (some .null)] ∧
        (replay (.obj sampleNew) inverses).same (.obj sampleOld) = true := by
  obtain ⟨hold, hnew⟩ := wellFormed_samples
  obtain ⟨inverses, hinverses, -, hback⟩ := changes_inverse hold hnew
  have hlist : (changes (.obj sampleOld) (.obj sampleNew)).map Patch.inverse? =
      [.modify "title" (.str "draft") (some (.str "final")),
        .delete "pinned" (some .null)].map some := by decide +kernel
  have heq := List.map_injective_iff.mpr (fun _ _ => Option.some.inj) (hinverses.symm.trans hlist)
  exact ⟨hold, hnew, plain_samples, inverses, hinverses, heq, hback plain_samples⟩

end Snapshot
end Outbox
