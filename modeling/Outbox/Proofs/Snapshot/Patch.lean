import Outbox.Proofs.Decode
import Outbox.Proofs.Snapshot.RoundTrip

/-!
# Patches, written and read

A patch is read as it was written, but for a previous value that is null: that counts as unknown
(`Patch.decode_toJson`). The previous value has no part in what a patch does, so replaying patches
that were written and read leads where the patches themselves lead (`Snapshot.replay_withoutNull`).

* `Patch.decode_of_kind`: the kind is taken off, and the rest is read as a record of that kind.
* `Snapshot.wellFormed_of_mem_changes`: the changes between two snapshots can be written and read.
-/

namespace Outbox

namespace Patch

variable {p : Patch}

/-- The value that a patch found, if it is known. -/
def oldValue? : Patch → Option Json
  | .add _ _ => none
  | .modify _ _ oldValue => oldValue
  | .delete _ oldValue => oldValue

/-- The values of a patch repeat no key. -/
structure WellFormed (p : Patch) : Prop where
  value : ∀ j ∈ p.value?, j.WellFormed
  oldValue : ∀ j ∈ p.oldValue?, j.WellFormed

/-- A patch as it is read: a previous value that is null counts as unknown. -/
def withoutNull : Patch → Patch
  | .add path value => .add path value
  | .modify path value oldValue => .modify path value (oldValue.filter (· ≠ .null))
  | .delete path oldValue => .delete path (oldValue.filter (· ≠ .null))

/-! ## Reading -/

theorem record_lawful (kind : Kind) : (record kind).Lawful := by
  cases kind with
  | add => exact (Record.lawful_required _ _).map.seq (Record.lawful_required _ _)
  | modify =>
    exact ((Record.lawful_required _ _).map.seq (Record.lawful_required _ _)).seq
      (Record.lawful_optional _ _)
  | delete => exact (Record.lawful_required _ _).map.seq (Record.lawful_optional _ _)

/-- **The kind of a patch is taken off, and the rest is read as a record of that kind.** -/
theorem decode_of_kind {name : String} (kind : Kind) (fs : Fields Json)
    (hname : Kind.ofName? name = some kind) (hfs : (Fields.keys fs).Nodup)
    (hkind : kindName ∉ Fields.keys fs) {x : Patch} (h : (record kind).ofFields fs = .ok x) :
    decode (.obj ((kindName, .str name) :: fs)) = .ok x := by
  have hrest : fs.filter (fun f => f.1 = kindName) = [] := by
    refine List.filter_eq_nil_iff.mpr fun f hf hfkind => hkind ?_
    rw [← of_decide_eq_true hfkind]
    exact List.mem_map_of_mem (f := Prod.fst) hf
  have herase : Fields.erase kindName ((kindName, .str name) :: fs) = fs := by
    have hkeep : ∀ gs : Fields Json, kindName ∉ Fields.keys gs → Fields.erase kindName gs = gs := by
      intro gs hgs
      induction gs with
      | nil => rfl
      | cons g gs ih =>
        obtain ⟨key, j⟩ := g
        obtain ⟨hkey, hgs⟩ := List.ne_and_not_mem_of_not_mem_cons hgs
        rw [Fields.erase, if_neg (Ne.symm hkey), ih hgs]
    rw [Fields.erase, if_pos rfl, hkeep fs hkind]
  unfold decode
  simp only [List.filter_cons, decide_true, ↓reduceIte, hrest, decodeKind, hname, herase,
    ne_eq, not_true_eq_false]
  exact (Record.decodeFields_iff (record_lawful kind) hfs).mpr h

/-- **A patch is read as it was written**, but for a previous value that is null. -/
theorem decode_toJson (h : p.WellFormed) : decode p.toJson = .ok p.withoutNull := by
  have hpath : ∀ fs path, Fields.get? "path" fs = some (.str path) →
      (Record.required "path" Decode.string).ofFields fs = .ok path := fun fs path hget =>
    Record.ofFields_required hget
  have hvalue : ∀ fs value, value.WellFormed → Fields.get? "value" fs = some value →
      (Record.required "value" Decode.value).ofFields fs = .ok value := by
    intro fs value hgood hget
    rw [Record.ofFields_required hget, Decode.value, Json.normal_of_wellFormed value hgood]
  cases p with
  | add path value =>
    refine decode_of_kind .add _ rfl (by simp [Fields.keys])
      (by simp [Fields.keys, kindName]) ?_
    exact Record.ofFields_seq_ok (Record.ofFields_map_ok (hpath _ path rfl))
      (hvalue _ value (h.value value rfl) rfl)
  | modify path value oldValue =>
    refine decode_of_kind .modify (("path", .str path) :: ("value", value) :: oldField oldValue)
      rfl ?_ ?_ ?_
    · cases oldValue <;> simp [Fields.keys, oldField]
    · cases oldValue <;> simp [Fields.keys, oldField, kindName]
    · refine Record.ofFields_seq_ok (Record.ofFields_seq_ok (Record.ofFields_map_ok
        (hpath _ path rfl)) (hvalue _ value (h.value value rfl) rfl)) ?_
      exact Record.ofFields_optional_value (by simp [oldField, Fields.get?]) h.oldValue
  | delete path oldValue =>
    refine decode_of_kind .delete (("path", .str path) :: oldField oldValue)
      rfl ?_ ?_ ?_
    · cases oldValue <;> simp [Fields.keys, oldField]
    · cases oldValue <;> simp [Fields.keys, oldField, kindName]
    · refine Record.ofFields_seq_ok (Record.ofFields_map_ok (hpath _ path rfl)) ?_
      exact Record.ofFields_optional_value (by simp [oldField, Fields.get?]) h.oldValue

/-- **Patches are read as they were written**, but for previous values that are null. -/
theorem decode_list {patches : List Patch} (h : ∀ p ∈ patches, p.WellFormed) :
    Decode.list decode (.arr (patches.map toJson)) = .ok (patches.map withoutNull) := by
  have hgives : Gives ((patches.map toJson).mapM decode) (∀ p ∈ patches, True)
      (patches.map withoutNull) :=
    Decode.gives_mapM fun p hp => Gives.of_eq (decode_toJson (h p hp))
  exact hgives.of_cond fun _ _ => trivial

end Patch

namespace Snapshot

/-- **The previous values have no part in what patches do.** -/
theorem replay_withoutNull (data : Json) (patches : List Patch) :
    replay data (patches.map .withoutNull) = replay data patches := by
  have hone : ∀ (fs : Fields Json) (p : Patch), replayOne fs p.withoutNull = replayOne fs p := by
    intro fs p
    cases p <;> rfl
  unfold replay
  rw [List.foldl_map]
  simp only [hone]

/-- **The changes between well-formed snapshots are well formed.** -/
theorem wellFormed_of_mem_changes {old new : Json} (hold : old.WellFormed) (hnew : new.WellFormed)
    {p : Patch} (hp : p ∈ changes old new) : p.WellFormed := by
  have hfields : ∀ j : Json, j.WellFormed → ∀ f ∈ j.fields, f.2.WellFormed := fun _ hj =>
    (Json.wellFormed_obj_iff.mp (Json.wellFormed_fields hj)).2
  rcases List.mem_append.mp hp with hp | hp
  · obtain ⟨f, hf, hwrite⟩ := List.mem_filterMap.mp hp
    have hvalue := hfields new hnew f hf
    unfold writeChange at hwrite
    split at hwrite
    · cases hwrite
      exact ⟨by rintro _ ⟨⟩; exact hvalue, nofun⟩
    · rename_i previous hprevious
      split at hwrite
      · cases hwrite
      · cases hwrite
        have hfound := hfields old hold _ (Fields.mem_of_get? hprevious)
        exact ⟨by rintro _ ⟨⟩; exact hvalue, by rintro _ ⟨⟩; exact hfound⟩
  · obtain ⟨f, hf, hdelete⟩ := List.mem_filterMap.mp hp
    have hvalue := hfields old hold f hf
    unfold deleteChange at hdelete
    split at hdelete
    · cases hdelete
    · cases hdelete
      exact ⟨nofun, by rintro _ ⟨⟩; exact hvalue⟩

end Snapshot
end Outbox
