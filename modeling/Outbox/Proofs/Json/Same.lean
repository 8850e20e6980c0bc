import Outbox.Json.Basic
import Mathlib.Data.List.Nodup
import Mathlib.Data.List.Perm.Subperm

/-!
# The equality of JSON, key by key

Two objects without repeated keys are the same if they have the same value, or none, at every key
(`Json.same_obj_iff`). Counting the fields of both, as `Json.same` does, finds the keys that only
one of them has.

A well-formed value is the same as itself (`Json.same_refl`). With a repeated key it need not be:
only the first of its values is found. And well-formed values can be compared either way round
(`Json.same_symm`).
-/

namespace Outbox

/-! ## Keys -/

namespace Fields

variable {α : Type} {fields : Fields α} {key : String} {value : α}

theorem keys_cons (f : String × α) (fields : Fields α) :
    keys (f :: fields) = f.1 :: keys fields := rfl

theorem mem_keys_iff : key ∈ keys fields ↔ ∃ value, get? key fields = some value := by
  rw [← Option.ne_none_iff_exists', Ne, get?_eq_none_iff, not_not]

/-- What is found at a key is a field. -/
theorem mem_of_get? (h : get? key fields = some value) : (key, value) ∈ fields := by
  induction fields with
  | nil => cases h
  | cons f rest ih =>
    obtain ⟨k, v⟩ := f
    unfold get? at h
    split at h
    · rename_i hk
      cases h
      subst hk
      exact List.mem_cons_self
    · exact List.mem_cons_of_mem _ (ih h)

/-- A field is found at its key if no key is repeated. -/
theorem get?_of_mem (hkeys : (keys fields).Nodup) (h : (key, value) ∈ fields) :
    get? key fields = some value := by
  induction fields with
  | nil => cases h
  | cons f rest ih =>
    obtain ⟨k, v⟩ := f
    obtain ⟨hfresh, hrest⟩ := List.nodup_cons.mp hkeys
    unfold get?
    rcases List.mem_cons.mp h with h | h
    · cases h
      rw [if_pos rfl]
    · have hne : k ≠ key := by
        rintro rfl
        have hkey := List.mem_map_of_mem (f := Prod.fst) h
        exact hfresh hkey
      rw [if_neg hne]
      exact ih hrest h

/-- The order of the fields does not matter if no key is repeated. -/
theorem get?_perm {others : Fields α} (hkeys : (keys fields).Nodup) (hperm : others.Perm fields)
    (key : String) : get? key others = get? key fields := by
  have hothers : (keys others).Nodup := (hperm.map Prod.fst).nodup_iff.mpr hkeys
  cases hvalue : get? key fields with
  | some value => exact get?_of_mem hothers (hperm.mem_iff.mpr (mem_of_get? hvalue))
  | none =>
    rw [get?_eq_none_iff] at hvalue ⊢
    exact mt (hperm.map Prod.fst).mem_iff.mp hvalue

theorem nodup_keys_put (key : String) (value : α) (h : (keys fields).Nodup) :
    (keys (put key value fields)).Nodup := by
  rw [keys_put]
  split
  · exact h
  · rename_i hfresh
    rw [← List.concat_eq_append]
    exact List.Nodup.concat hfresh h

theorem nodup_keys_erase (key : String) (h : (keys fields).Nodup) :
    (keys (erase key fields)).Nodup := by
  rw [keys_erase]
  exact h.filter _

end Fields

/-! ## Equality -/

theorem Double.equal_refl (d : Double) : d.equal d = true := by
  unfold equal
  rw [beq_self_eq_true, Bool.true_or]

theorem Number.same_refl (n : Number) : n.same n = true := by
  cases n with
  | integer n => exact beq_self_eq_true n
  | double d => exact d.equal_refl

theorem Double.equal_comm (d e : Double) : d.equal e = e.equal d := by
  unfold equal
  rw [Bool.beq_comm, Bool.and_comm]

theorem Number.same_comm (m n : Number) : m.same n = n.same m := by
  cases m with
  | integer a =>
    cases n with
    | integer b => exact Bool.beq_comm
    | double b => rfl
  | double a =>
    cases n with
    | integer b => rfl
    | double b => exact a.equal_comm b

namespace Json

/-- Whether two values are the same, or both are missing. -/
def sameAt : Option Json → Option Json → Bool
  | some x, some y => x.same y
  | none, none => true
  | _, _ => false

/-- All fields of the first list are found in the second, with the same values. -/
theorem sameFields_iff {fs gs : Fields Json} :
    sameFields fs gs = true ↔ ∀ f ∈ fs, sameAt (some f.2) (Fields.get? f.1 gs) = true := by
  induction fs with
  | nil => exact iff_of_true rfl fun f hf => absurd hf List.not_mem_nil
  | cons f rest ih =>
    obtain ⟨key, value⟩ := f
    rw [sameFields, Bool.and_eq_true, ih, List.forall_mem_cons]
    cases Fields.get? key gs <;> rfl

mutual

/-- **A well-formed value is the same as itself.** -/
theorem same_refl : ∀ x : Json, x.WellFormed → x.same x = true
  | .null, _ => rfl
  | .bool b, _ => beq_self_eq_true b
  | .num n, _ => n.same_refl
  | .str s, _ => beq_self_eq_true s
  | .arr xs, h => by
    unfold WellFormed at h
    unfold same
    exact sameItems_refl xs h
  | .obj fs, h => by
    unfold WellFormed at h
    unfold same
    rw [beq_self_eq_true, Bool.true_and]
    exact sameFields_refl fs fs h.2 fun f hf => Fields.get?_of_mem h.1 hf

theorem sameItems_refl : ∀ xs : List Json, WellFormedItems xs → sameItems xs xs = true
  | [], _ => rfl
  | x :: xs, h => by
    unfold WellFormedItems at h
    unfold sameItems
    rw [same_refl x h.1, sameItems_refl xs h.2]
    rfl

/-- Fields that are found in a list have the same values there. -/
theorem sameFields_refl : ∀ fs gs : Fields Json, WellFormedFields fs →
    (∀ f ∈ fs, Fields.get? f.1 gs = some f.2) → sameFields fs gs = true
  | [], _, _, _ => rfl
  | (key, value) :: fs, gs, h, hfound => by
    unfold WellFormedFields at h
    obtain ⟨hvalue, hfields⟩ := List.forall_mem_cons.mp hfound
    unfold sameFields
    rw [hvalue]
    simp only
    rw [same_refl value h.1, sameFields_refl fs gs h.2 hfields]
    rfl

end

theorem WellFormedFields.of_mem {fs : Fields Json} (h : WellFormedFields fs) {f : String × Json}
    (hf : f ∈ fs) : f.2.WellFormed := by
  induction fs with
  | nil => cases hf
  | cons g fs ih =>
    unfold WellFormedFields at h
    rcases List.mem_cons.mp hf with rfl | hf
    · exact h.1
    · exact ih h.2 hf

theorem wellFormed_get? {fs : Fields Json} {key : String} (h : WellFormed (.obj fs)) :
    ∀ x ∈ Fields.get? key fs, x.WellFormed := by
  unfold WellFormed at h
  exact fun x hx => WellFormedFields.of_mem h.2 (Fields.mem_of_get? hx)

/-- A well-formed value is the same as itself, and so is a missing one. -/
theorem sameAt_refl {value : Option Json} (h : ∀ x ∈ value, x.WellFormed) :
    sameAt value value = true := by
  cases value with
  | none => rfl
  | some x => exact same_refl x (h x rfl)

/-- **Objects are compared key by key.** -/
theorem same_obj_iff {fs gs : Fields Json} (hfs : (Fields.keys fs).Nodup)
    (hgs : (Fields.keys gs).Nodup) :
    (obj fs).same (.obj gs) = true ↔
      ∀ key, sameAt (Fields.get? key fs) (Fields.get? key gs) = true := by
  unfold same
  rw [Bool.and_eq_true, beq_iff_eq, sameFields_iff]
  have hlength : ∀ hs : Fields Json, (Fields.keys hs).length = hs.length := fun hs =>
    List.length_map Prod.fst
  constructor
  · rintro ⟨hcount, hfound⟩ key
    have hsub : Fields.keys fs ⊆ Fields.keys gs := by
      intro key hkey
      obtain ⟨value, hvalue⟩ := Fields.mem_keys_iff.mp hkey
      have hsame := hfound (key, value) (Fields.mem_of_get? hvalue)
      rw [Fields.mem_keys_iff]
      cases hother : Fields.get? key gs with
      | none =>
        simp only [hother] at hsame
        cases hsame
      | some other => exact ⟨other, rfl⟩
    have hperm : (Fields.keys fs).Perm (Fields.keys gs) := by
      have hle : (Fields.keys gs).length ≤ (Fields.keys fs).length :=
        Nat.le_of_eq (by rw [hlength, hlength, hcount])
      exact (hfs.subperm hsub).perm_of_length_le hle
    cases hvalue : Fields.get? key fs with
    | some value => exact hfound (key, value) (Fields.mem_of_get? hvalue)
    | none =>
      have hmissing := mt hperm.mem_iff.mpr (Fields.get?_eq_none_iff.mp hvalue)
      rw [Fields.get?_eq_none_iff.mpr hmissing]
      rfl
  · intro hall
    have hmem : ∀ key, key ∈ Fields.keys fs ↔ key ∈ Fields.keys gs := by
      intro key
      have hkey := hall key
      rw [Fields.mem_keys_iff, Fields.mem_keys_iff]
      cases hvalue : Fields.get? key fs <;> cases hother : Fields.get? key gs <;>
        simp_all [sameAt]
    refine ⟨?_, fun f hf => ?_⟩
    · rw [← hlength, ← hlength, ((List.perm_ext_iff_of_nodup hfs hgs).mpr hmem).length_eq]
    · rw [← Fields.get?_of_mem hfs hf]
      exact hall f.1

/-- What can be compared the other way round can be so where it may be missing. -/
theorem sameAt_symm {x y : Option Json}
    (hsymm : ∀ a ∈ x, ∀ b ∈ y, a.same b = true → b.same a = true) (h : sameAt x y = true) :
    sameAt y x = true := by
  cases x with
  | none =>
    cases y with
    | none => rfl
    | some b => cases h
  | some a =>
    cases y with
    | none => cases h
    | some b => exact hsymm a rfl b rfl h

mutual

/-- **The equality of well-formed values is symmetric.** -/
theorem same_symm :
    ∀ x y : Json, x.WellFormed → y.WellFormed → x.same y = true → y.same x = true
  | .null, y, _, _, h => by cases y <;> simp_all [same]
  | .bool a, y, _, _, h => by cases y <;> simp_all [same]
  | .num m, y, _, _, h => by
    cases y with
    | num n => exact (n.same_comm m).trans h
    | null | bool _ | str _ | arr _ | obj _ => cases h
  | .str s, y, _, _, h => by cases y <;> simp_all [same]
  | .arr xs, y, hx, hy, h => by
    cases y with
    | arr ys =>
      unfold WellFormed at hx hy
      unfold same at h ⊢
      exact sameItems_symm xs ys hx hy h
    | null | bool _ | num _ | str _ | obj _ => cases h
  | .obj fs, y, hx, hy, h => by
    cases y with
    | obj gs =>
      have hvalues := forall_same_symm fs
      unfold WellFormed at hx
      have hgs := hy
      unfold WellFormed at hgs
      rw [same_obj_iff hx.1 hgs.1] at h
      refine (same_obj_iff hgs.1 hx.1).mpr fun key => sameAt_symm (fun a ha b hb => ?_) (h key)
      have hmem := Fields.mem_of_get? ha
      exact hvalues (key, a) hmem b (hx.2.of_mem hmem) (wellFormed_get? hy b hb)
    | null | bool _ | num _ | str _ | arr _ => cases h

theorem sameItems_symm : ∀ xs ys : List Json, WellFormedItems xs → WellFormedItems ys →
    sameItems xs ys = true → sameItems ys xs = true
  | [], ys, _, _, h => by
    cases ys with
    | nil => rfl
    | cons y ys => cases h
  | x :: xs, ys, hxs, hys, h => by
    cases ys with
    | nil => cases h
    | cons y ys =>
      unfold WellFormedItems at hxs hys
      unfold sameItems at h ⊢
      rw [Bool.and_eq_true] at h ⊢
      exact ⟨same_symm x y hxs.1 hys.1 h.1, sameItems_symm xs ys hxs.2 hys.2 h.2⟩

/-- Every value among the fields can be compared the other way round. -/
theorem forall_same_symm : ∀ fs : Fields Json, ∀ f ∈ fs, ∀ y : Json, f.2.WellFormed →
    y.WellFormed → f.2.same y = true → y.same f.2 = true
  | [] => fun _ hf => absurd hf List.not_mem_nil
  | (_, x) :: fs => List.forall_mem_cons.mpr ⟨same_symm x, forall_same_symm fs⟩

end

/-- Well-formed values can be compared either way round, also where one is missing. -/
theorem sameAt_comm {x y : Option Json} (hx : ∀ a ∈ x, a.WellFormed) (hy : ∀ b ∈ y, b.WellFormed) :
    sameAt x y = sameAt y x :=
  Bool.eq_iff_iff.mpr
    ⟨sameAt_symm fun a ha b hb => same_symm a b (hx a ha) (hy b hb),
      sameAt_symm fun b hb a ha => same_symm b a (hy b hb) (hx a ha)⟩

end Json
end Outbox
