import Outbox.Proofs.Snapshot.Effect

/-!
# Several patches on one snapshot

The patches for one key of an object have to do with the value at this key only, so replaying
patches on an object is replaying, at each key, the rests of their paths. Three cases are left for
the value at the start of all paths:

* Some path ends here. It sets the value whatever was there, so what all of them lead to does not
  depend on the start (`Snapshot.rewriteAll_of_end`).
* All paths go on, and the value blocks them. The patches are all skipped
  (`Snapshot.rewriteAll_of_blocked`).
* All paths go on, and there is an object or will be one. Then the same is asked of its keys, with
  paths that are shorter (`Snapshot.exists_fields_rewriteAll`).

So lists of patches are compared by the first case alone, if what relates them holds of the rests of
their paths as well (`Snapshot.Alike.sameAt_rewriteAll`).
-/

namespace Outbox.Snapshot

variable {key : String} {start : Option Json} {fs : Fields Json}

/-! ## Several paths from one start -/

/-- A path with the value that it is to lead to. -/
abbrev Edit := List String × Option Json

/-- The path and the value of a patch. -/
def editOf (p : Patch) : Edit := (segments p.path, p.value?)

/-- What becomes of the value at the start of all paths. -/
def rewriteAll (edits : List Edit) (start : Option Json) : Option Json :=
  edits.foldl (fun start e => rewrite e.1 e.2 start) start

/-- The rest of a path that begins with this key. -/
def restAt (key : String) : Edit → Option Edit
  | ([], _) => none
  | (first :: path, value) => if first = key then some (path, value) else none

/-- The edits of the value at a key. -/
def editsAt (key : String) (edits : List Edit) : List Edit := edits.filterMap (restAt key)

variable {edits : List Edit}

theorem rewriteAll_cons (e : Edit) (edits : List Edit) (start : Option Json) :
    rewriteAll (e :: edits) start = rewriteAll edits (rewrite e.1 e.2 start) := rfl

/-- Replaying patches is editing the whole snapshot. -/
theorem replay_eq (data : Json) (patches : List Patch) :
    some (replay data patches) = rewriteAll (patches.map editOf) (some (.obj data.fields)) := by
  unfold replay
  generalize data.fields = fs
  induction patches generalizing fs with
  | nil => rfl
  | cons p patches ih =>
    rw [List.foldl_cons, ih, replayOne_eq]
    rfl

theorem wellFormed_rewriteAll (hedits : ∀ e ∈ edits, ∀ x ∈ e.2, x.WellFormed)
    (hstart : ∀ x ∈ start, x.WellFormed) : ∀ x ∈ rewriteAll edits start, x.WellFormed := by
  induction edits generalizing start with
  | nil => exact hstart
  | cons e edits ih =>
    obtain ⟨he, hrest⟩ := List.forall_mem_cons.mp hedits
    exact ih hrest (wellFormed_rewrite he hstart)

/-! ## A path that ends at its start -/

/-- **Once a path ends at the start, what was there does not matter.** -/
theorem rewriteAll_of_end (h : ∃ e ∈ edits, e.1 = []) (start start' : Option Json) :
    rewriteAll edits start = rewriteAll edits start' := by
  induction edits generalizing start start' with
  | nil =>
    obtain ⟨e, he, -⟩ := h
    cases he
  | cons e edits ih =>
    obtain ⟨path, value⟩ := e
    rw [rewriteAll_cons, rewriteAll_cons]
    cases path with
    | nil => rfl
    | cons key path =>
      obtain ⟨e, he, hend⟩ := h
      rcases List.mem_cons.mp he with rfl | he
      · cases hend
      · exact ih ⟨e, he, hend⟩ _ _

/-! ## Paths that go on -/

/-- Paths that go on are all blocked at a value that blocks one. -/
theorem rewriteAll_of_blocked (hgoOn : ∀ e ∈ edits, e.1 ≠ []) (h : below start = none) :
    rewriteAll edits start = start := by
  induction edits with
  | nil => rfl
  | cons e edits ih =>
    obtain ⟨path, value⟩ := e
    obtain ⟨hpath, hrest⟩ := List.forall_mem_cons.mp hgoOn
    obtain ⟨key, path, rfl⟩ := List.exists_cons_of_ne_nil hpath
    rw [rewriteAll_cons, rewrite_cons_none h, ih hrest]

theorem editsAt_cons (key first : String) (path : List String) (value : Option Json)
    (edits : List Edit) :
    editsAt key ((first :: path, value) :: edits) =
      if first = key then (path, value) :: editsAt key edits else editsAt key edits := by
  have hrest : restAt key (first :: path, value) =
      if first = key then some (path, value) else none := rfl
  unfold editsAt
  by_cases hkey : first = key
  · rw [if_pos hkey] at hrest ⊢
    rw [List.filterMap_cons_some hrest]
  · rw [if_neg hkey] at hrest ⊢
    rw [List.filterMap_cons_none hrest]

/-- **Paths that go on edit an object key by key**, each with its rest. -/
theorem exists_fields_rewriteAll (hgoOn : ∀ e ∈ edits, e.1 ≠ []) (fs : Fields Json) :
    ∃ gs, rewriteAll edits (some (.obj fs)) = some (.obj gs) ∧
      ∀ key, Fields.get? key gs = rewriteAll (editsAt key edits) (Fields.get? key fs) := by
  induction edits generalizing fs with
  | nil => exact ⟨fs, rfl, fun key => rfl⟩
  | cons e edits ih =>
    obtain ⟨path, value⟩ := e
    obtain ⟨hpath, hrest⟩ := List.forall_mem_cons.mp hgoOn
    obtain ⟨first, path, rfl⟩ := List.exists_cons_of_ne_nil hpath
    obtain ⟨gs, hgs, hkeys⟩ :=
      ih hrest (lastChange first (rewrite path value (Fields.get? first fs)) fs)
    refine ⟨gs, ?_, fun key => ?_⟩
    · rw [rewriteAll_cons]
      exact hgs
    · rw [hkeys, get?_lastChange, editsAt_cons]
      by_cases hkey : first = key
      · subst hkey
        rw [if_pos rfl, if_pos rfl, rewriteAll_cons]
      · rw [if_neg hkey, if_neg hkey]

/-- An object is made where paths go on. -/
theorem rewriteAll_of_below (hgoOn : ∀ e ∈ edits, e.1 ≠ []) (hne : edits ≠ [])
    (h : below start = some fs) : rewriteAll edits start = rewriteAll edits (some (.obj fs)) := by
  obtain ⟨⟨path, value⟩, edits, rfl⟩ := List.exists_cons_of_ne_nil hne
  obtain ⟨key, path, rfl⟩ := List.exists_cons_of_ne_nil (hgoOn _ List.mem_cons_self)
  rw [rewriteAll_cons, rewriteAll_cons, rewrite_cons_some h]
  rfl

/-! ## Lists of edits that do the same -/

/-- An edit of the value at a key is the rest of one that begins with this key. -/
theorem of_restAt {e rest : Edit} (h : restAt key e = some rest) : e = (key :: rest.1, rest.2) := by
  obtain ⟨path, value⟩ := e
  cases path with
  | nil => cases h
  | cons first path =>
    simp only [restAt, Option.ite_none_right_eq_some, Option.some.injEq] at h
    obtain ⟨rfl, rfl⟩ := h
    rfl

theorem of_mem_editsAt {e : Edit} (h : e ∈ editsAt key edits) : (key :: e.1, e.2) ∈ edits := by
  obtain ⟨whole, hmem, hrest⟩ := List.mem_filterMap.mp h
  rw [← of_restAt hrest]
  exact hmem

/-- Lists of edits are related so that they do the same: they have the same members, where a path
ends they lead to the same value, and their rests at every key are related again. -/
structure Alike (related : List Edit → List Edit → Prop) : Prop where
  /-- Both lists have the same edits. -/
  mem : ∀ {edits others}, related edits others → ∀ e, e ∈ edits ↔ e ∈ others
  /-- A path that ends at the start leads to the same value in both. -/
  ends : ∀ {edits others}, related edits others → (∃ e ∈ others, e.1 = []) →
    ∀ start, rewriteAll edits start = rewriteAll others start
  /-- The rests of the paths are related, whatever key they are at. -/
  rests : ∀ {edits others}, related edits others →
    ∀ key, related (editsAt key edits) (editsAt key others)

section Related

variable {related : List Edit → List Edit → Prop} {others : List Edit}

theorem Alike.eq_nil_iff (halike : Alike related) (h : related edits others) :
    edits = [] ↔ others = [] := by
  rw [List.eq_nil_iff_forall_not_mem, List.eq_nil_iff_forall_not_mem]
  exact forall_congr' fun e => not_congr (halike.mem h e)

/-- The induction is on a bound of the lengths of the paths. -/
theorem Alike.sameAt_of_bound (halike : Alike related) (h : related edits others) {bound : Nat}
    (hbound : ∀ e ∈ others, e.1.length < bound) (hothers : ∀ e ∈ others, ∀ x ∈ e.2, x.WellFormed)
    (hstart : ∀ x ∈ start, x.WellFormed) :
    Json.sameAt (rewriteAll edits start) (rewriteAll others start) = true := by
  induction bound generalizing edits others start with
  | zero =>
    have hnone : others = [] := List.eq_nil_iff_forall_not_mem.mpr fun e he =>
      absurd (hbound e he) (Nat.not_lt_zero _)
    rw [hnone, (halike.eq_nil_iff h).mpr hnone]
    exact Json.sameAt_refl hstart
  | succ bound ih =>
    have hedits : ∀ e ∈ edits, ∀ x ∈ e.2, x.WellFormed := fun e he =>
      hothers e ((halike.mem h e).mp he)
    by_cases hend : ∃ e ∈ others, e.1 = []
    · rw [halike.ends h hend]
      exact Json.sameAt_refl (wellFormed_rewriteAll hothers hstart)
    have hgoOn : ∀ e ∈ others, e.1 ≠ [] := fun e he hnil => hend ⟨e, he, hnil⟩
    have hgoOn' : ∀ e ∈ edits, e.1 ≠ [] := fun e he => hgoOn e ((halike.mem h e).mp he)
    by_cases hnone : others = []
    · rw [hnone, (halike.eq_nil_iff h).mpr hnone]
      exact Json.sameAt_refl hstart
    cases hbelow : below start with
    | none =>
      rw [rewriteAll_of_blocked hgoOn hbelow, rewriteAll_of_blocked hgoOn' hbelow]
      exact Json.sameAt_refl hstart
    | some fs =>
      obtain ⟨gs, hgs, hkeys⟩ := exists_fields_rewriteAll hgoOn fs
      obtain ⟨hs, hhs, hkeys'⟩ := exists_fields_rewriteAll hgoOn' fs
      have hwell := wellFormed_rewriteAll hothers hstart
      have hwell' := wellFormed_rewriteAll hedits hstart
      rw [rewriteAll_of_below hgoOn hnone hbelow, hgs] at hwell ⊢
      rw [rewriteAll_of_below hgoOn' (mt (halike.eq_nil_iff h).mp hnone) hbelow, hhs] at hwell' ⊢
      have hgsKeys := (Json.wellFormed_obj_iff.mp (hwell _ rfl)).1
      have hhsKeys := (Json.wellFormed_obj_iff.mp (hwell' _ rfl)).1
      -- Both lead to objects, and at each key the rests of the paths are compared.
      refine (Json.same_obj_iff hhsKeys hgsKeys).mpr fun key => ?_
      rw [hkeys', hkeys]
      refine ih (halike.rests h key) (fun e he => ?_) (fun e he => ?_) ?_
      · exact Nat.lt_of_succ_lt_succ (hbound _ (of_mem_editsAt he))
      · exact hothers (key :: e.1, e.2) (of_mem_editsAt he)
      · exact Json.wellFormed_get? (wellFormed_below hstart hbelow)

/-- **Related lists of edits lead to values that are the same.** -/
theorem Alike.sameAt_rewriteAll (halike : Alike related) (h : related edits others)
    (hothers : ∀ e ∈ others, ∀ x ∈ e.2, x.WellFormed) (hstart : ∀ x ∈ start, x.WellFormed) :
    Json.sameAt (rewriteAll edits start) (rewriteAll others start) = true := by
  have hbound : ∀ e ∈ others,
      e.1.length < (others.map fun e => e.1.length).max?.getD 0 + 1 := fun e he =>
    Nat.lt_succ_of_le (List.le_max?_getD_of_mem (List.mem_map_of_mem he))
  exact halike.sameAt_of_bound h hbound hothers hstart

end Related

end Outbox.Snapshot
