import Outbox.Proofs.Json.Same

/-!
# Values without repeated keys

`Json.normal` makes every value well formed (`Json.wellFormed_normal`) and leaves those alone that
are (`Json.normal_of_wellFormed`). For the fields of one object this is what `Fields.ofList` does:
its result repeats no key, and a list that repeats none is its own result.
-/

namespace Outbox

/-! ## Fields -/

namespace Fields

variable {α : Type} {fs gs : Fields α} {key : String} {value : α}

theorem keys_append (fs gs : Fields α) : keys (fs ++ gs) = keys fs ++ keys gs :=
  List.map_append

@[simp] theorem get?_append (key : String) (fs gs : Fields α) :
    get? key (fs ++ gs) = (get? key fs).or (get? key gs) := by
  induction fs with
  | nil => rfl
  | cons f fs ih =>
    obtain ⟨k, v⟩ := f
    rw [List.cons_append, get?, get?, ih]
    split <;> rfl

/-- A field that is written if its value is there. -/
@[simp] theorem get?_toList_map {β : Type} (name key : String) (value : Option β) (f : β → α) :
    get? key (value.toList.map fun b => (name, f b)) =
      if name = key then value.map f else none := by
  cases value with
  | none => exact (ite_self none).symm
  | some b => rfl

@[simp] theorem get?_toList_mk (name key : String) (value : Option α) :
    get? key (value.toList.map fun a => (name, a)) = if name = key then value else none := by
  rw [get?_toList_map name key value fun a => a, Option.map_id']

theorem keys_toList_map {β : Type} (name : String) (value : Option β) (f : β → α) :
    (keys (value.toList.map fun b => (name, f b))).Sublist [name] := by
  cases value with
  | none => exact List.nil_sublist _
  | some b => exact List.Sublist.refl _

theorem put_of_not_mem (h : key ∉ keys fs) : put key value fs = fs ++ [(key, value)] := by
  induction fs with
  | nil => rfl
  | cons f fs ih =>
    obtain ⟨k, v⟩ := f
    obtain ⟨hkey, hfs⟩ := List.ne_and_not_mem_of_not_mem_cons h
    rw [put, if_neg (Ne.symm hkey), ih hfs, List.cons_append]

/-- A value that is put where it was changes nothing, not even the order. -/
theorem put_of_get? (h : get? key fs = some value) : put key value fs = fs := by
  induction fs with
  | nil => cases h
  | cons f fs ih =>
    obtain ⟨k, v⟩ := f
    unfold get? at h
    unfold put
    split at h
    · rename_i hk
      cases h
      rw [if_pos hk, hk]
    · rename_i hk
      rw [if_neg hk, ih h]

/-- Taking out a key that is not there changes nothing. -/
theorem erase_of_get? (h : get? key fs = none) : erase key fs = fs := by
  induction fs with
  | nil => rfl
  | cons f fs ih =>
    obtain ⟨k, v⟩ := f
    unfold get? at h
    unfold erase
    split at h
    · cases h
    · rename_i hk
      rw [if_neg hk, ih h]

/-- The fields after a value was put at a key are old ones, or that one. -/
theorem of_mem_put {f : String × α} (h : f ∈ put key value fs) : f ∈ fs ∨ f = (key, value) := by
  induction fs with
  | nil => exact Or.inr (List.mem_singleton.mp h)
  | cons g fs ih =>
    obtain ⟨k, v⟩ := g
    unfold put at h
    split at h
    · rename_i hk
      rcases List.mem_cons.mp h with rfl | h
      · exact Or.inr (by rw [hk])
      · exact Or.inl (List.mem_cons_of_mem _ h)
    · rcases List.mem_cons.mp h with rfl | h
      · exact Or.inl List.mem_cons_self
      · exact (ih h).imp_left (List.mem_cons_of_mem _)

theorem nodup_keys_foldl_put (h : (keys gs).Nodup) :
    (keys (fs.foldl (fun acc f => put f.1 f.2 acc) gs)).Nodup := by
  induction fs generalizing gs with
  | nil => exact h
  | cons f fs ih => exact ih (nodup_keys_put f.1 f.2 h)

theorem nodup_keys_ofList (fs : List (String × α)) : (keys (ofList fs)).Nodup :=
  nodup_keys_foldl_put List.nodup_nil

theorem of_mem_foldl_put {f : String × α}
    (h : f ∈ fs.foldl (fun acc f => put f.1 f.2 acc) gs) : f ∈ gs ∨ f ∈ fs := by
  induction fs generalizing gs with
  | nil => exact Or.inl h
  | cons g fs ih =>
    rcases ih h with h | h
    · rcases of_mem_put h with h | rfl
      · exact Or.inl h
      · exact Or.inr List.mem_cons_self
    · exact Or.inr (List.mem_cons_of_mem _ h)

theorem of_mem_ofList {f : String × α} (h : f ∈ ofList fs) : f ∈ fs :=
  (of_mem_foldl_put h).resolve_left List.not_mem_nil

theorem foldl_put_of_nodup (h : (keys (gs ++ fs)).Nodup) :
    fs.foldl (fun acc f => put f.1 f.2 acc) gs = gs ++ fs := by
  induction fs generalizing gs with
  | nil => exact (List.append_nil gs).symm
  | cons f fs ih =>
    have hfresh : f.1 ∉ keys gs := by
      rw [keys_append] at h
      intro hmem
      exact List.disjoint_of_nodup_append h hmem List.mem_cons_self
    rw [List.append_cons] at h
    rw [List.foldl_cons, put_of_not_mem hfresh, ih h, ← List.append_cons]

/-- **A list without repeated keys is the list of its fields.** -/
theorem ofList_of_nodup (h : (keys fs).Nodup) : ofList fs = fs := foldl_put_of_nodup h

end Fields

/-! ## Values -/

namespace Json

theorem wellFormedFields_iff {fs : Fields Json} :
    WellFormedFields fs ↔ ∀ f ∈ fs, f.2.WellFormed := by
  refine ⟨fun h f hf => h.of_mem hf, fun h => ?_⟩
  induction fs with
  | nil => trivial
  | cons f fs ih =>
    obtain ⟨hf, hfs⟩ := List.forall_mem_cons.mp h
    exact ⟨hf, ih hfs⟩

theorem wellFormed_obj_iff {fs : Fields Json} :
    (obj fs).WellFormed ↔ (Fields.keys fs).Nodup ∧ ∀ f ∈ fs, f.2.WellFormed := by
  rw [← wellFormedFields_iff, WellFormed]

/-- A value that counts as an object counts as a well-formed one. -/
theorem wellFormed_fields {x : Json} (h : x.WellFormed) : (obj x.fields).WellFormed := by
  cases x with
  | obj fs => exact h
  | null | bool _ | num _ | str _ | arr _ => exact ⟨List.nodup_nil, trivial⟩

section Fields

variable {fs : Fields Json} {key : String}

theorem wellFormed_put {x : Json} (h : (obj fs).WellFormed) (hx : x.WellFormed) :
    (obj (Fields.put key x fs)).WellFormed := by
  obtain ⟨hkeys, hvalues⟩ := wellFormed_obj_iff.mp h
  refine wellFormed_obj_iff.mpr ⟨Fields.nodup_keys_put key x hkeys, fun f hf => ?_⟩
  rcases Fields.of_mem_put hf with hf | rfl
  · exact hvalues f hf
  · exact hx

theorem wellFormed_erase (h : (obj fs).WellFormed) : (obj (Fields.erase key fs)).WellFormed := by
  obtain ⟨hkeys, hvalues⟩ := wellFormed_obj_iff.mp h
  refine wellFormed_obj_iff.mpr ⟨Fields.nodup_keys_erase key hkeys, fun f hf => ?_⟩
  have hget := Fields.get?_of_mem (Fields.nodup_keys_erase key hkeys) hf
  rw [Fields.get?_erase] at hget
  split at hget
  · cases hget
  · exact hvalues f (Fields.mem_of_get? hget)

end Fields

mutual

/-- **A value without repeated keys is left alone.** -/
theorem normal_of_wellFormed : ∀ x : Json, x.WellFormed → x.normal = x
  | .null, _ => rfl
  | .bool _, _ => rfl
  | .num _, _ => rfl
  | .str _, _ => rfl
  | .arr xs, h => by
    unfold WellFormed at h
    unfold normal
    rw [normalItems_of_wellFormed xs h]
  | .obj fs, h => by
    unfold WellFormed at h
    unfold normal
    rw [normalFields_of_wellFormed fs h.2, Fields.ofList_of_nodup h.1]

theorem normalItems_of_wellFormed : ∀ xs : List Json, WellFormedItems xs → normalItems xs = xs
  | [], _ => rfl
  | x :: xs, h => by
    unfold WellFormedItems at h
    unfold normalItems
    rw [normal_of_wellFormed x h.1, normalItems_of_wellFormed xs h.2]

theorem normalFields_of_wellFormed :
    ∀ fs : Fields Json, WellFormedFields fs → normalFields fs = fs
  | [], _ => rfl
  | (key, x) :: fs, h => by
    unfold WellFormedFields at h
    unfold normalFields
    rw [normal_of_wellFormed x h.1, normalFields_of_wellFormed fs h.2]

end

mutual

/-- **No value has a repeated key once it is normalised.** -/
theorem wellFormed_normal : ∀ x : Json, x.normal.WellFormed
  | .null => trivial
  | .bool _ => trivial
  | .num _ => trivial
  | .str _ => trivial
  | .arr xs => by
    unfold normal WellFormed
    exact wellFormedItems_normal xs
  | .obj fs => by
    unfold normal
    have hvalues := forall_wellFormed_normal fs
    refine wellFormed_obj_iff.mpr ⟨Fields.nodup_keys_ofList _, fun f hf => ?_⟩
    exact hvalues f (Fields.of_mem_ofList hf)

theorem wellFormedItems_normal : ∀ xs : List Json, WellFormedItems (normalItems xs)
  | [] => trivial
  | x :: xs => ⟨wellFormed_normal x, wellFormedItems_normal xs⟩

theorem forall_wellFormed_normal :
    ∀ fs : Fields Json, ∀ f ∈ normalFields fs, f.2.WellFormed
  | [] => fun _ hf => absurd hf List.not_mem_nil
  | (key, x) :: fs => by
    unfold normalFields
    exact List.forall_mem_cons.mpr ⟨wellFormed_normal x, forall_wellFormed_normal fs⟩

end

end Json
end Outbox
