import Outbox.Decode
import Outbox.Proofs.Json.Normal

/-!
# What decoders give

`Gives result cond value` says when a decoder succeeds on a value and with what: exactly if `cond`
holds, and then with `value`. `RoundTrips` says it of all values that are written, and that whatever
is read is fit to be written again.

A `Record` checks the fields of an object before it builds a value. What it builds from has passed
its checks (`Record.Lawful`), so where no key is repeated the checks make no difference
(`Record.decodeFields_iff`), and a record gives what its parts give. `Record.Always` is about the
values that a record builds, from an object or from an array.
-/

namespace Outbox

variable {α β ε : Type}

/-! ## Results -/

/-- A value is computed from a success. -/
theorem of_map_eq_ok {result : Except ε α} {f : α → β} {y : β} (h : result.map f = .ok y) :
    ∃ x, result = .ok x ∧ f x = y := by
  cases result with
  | error e => cases h
  | ok x =>
    cases h
    exact ⟨x, rfl, rfl⟩

/-- Two steps succeed one after the other. -/
theorem of_bind_eq_ok {result : Except ε α} {next : α → Except ε β} {y : β}
    (h : result >>= next = .ok y) : ∃ x, result = .ok x ∧ next x = .ok y := by
  cases result with
  | error e => cases h
  | ok x => exact ⟨x, rfl, h⟩

/-- A result is a success exactly under a condition, and then with this value. -/
def Gives (result : Except ε α) (cond : Prop) (value : α) : Prop :=
  ∀ x, result = .ok x ↔ cond ∧ x = value

namespace Gives

variable {result : Except ε α} {cond cond' : Prop} {a : α} {b : β}

theorem of_eq (h : result = .ok a) : Gives result True a := by
  intro x
  rw [h, Except.ok.injEq, true_and, eq_comm]

theorem of_cond (h : Gives result cond a) (hcond : cond) : result = .ok a :=
  (h a).mpr ⟨hcond, rfl⟩

theorem congr (h : Gives result cond a) (hiff : cond ↔ cond') : Gives result cond' a := by
  intro x
  rw [h x, hiff]

theorem bind {next : α → Except ε β} (h : Gives result cond a) (hnext : Gives (next a) cond' b) :
    Gives (result >>= next) (cond ∧ cond') b := by
  intro x
  constructor
  · intro hx
    obtain ⟨a', ha, hb⟩ := of_bind_eq_ok hx
    obtain ⟨hcond, rfl⟩ := (h a').mp ha
    obtain ⟨hcond', rfl⟩ := (hnext x).mp hb
    exact ⟨⟨hcond, hcond'⟩, rfl⟩
  · rintro ⟨⟨hcond, hcond'⟩, rfl⟩
    rw [h.of_cond hcond]
    exact hnext.of_cond hcond'

theorem map (f : α → β) (h : Gives result cond a) : Gives (result.map f) cond (f a) := by
  intro y
  constructor
  · intro hy
    obtain ⟨x, hx, rfl⟩ := of_map_eq_ok hy
    obtain ⟨hcond, rfl⟩ := (h x).mp hx
    exact ⟨hcond, rfl⟩
  · rintro ⟨hcond, rfl⟩
    rw [h.of_cond hcond]
    rfl

theorem bind_ok (f : α → β) (h : Gives result cond a) :
    Gives (result >>= fun x => .ok (f x)) cond (f a) := by
  cases result <;> exact h.map f

end Gives

/-- Values are read as they were written, or in a standard form, exactly if they can be read back;
and what is read is good. -/
structure RoundTrips (decode : Decoder α) (toJson : α → Json) (good readsBack : α → Prop)
    (standard : α → α) : Prop where
  written : ∀ x, good x → Gives (decode (toJson x)) (readsBack x) (standard x)
  read : ∀ j x, decode j = .ok x → good x

/-! ## Lists -/

namespace Decode

variable {γ : Type}

theorem gives_mapM {decode : γ → Except ε α} {toJson : β → γ} {cond : β → Prop} {value : β → α}
    {xs : List β} (h : ∀ x ∈ xs, Gives (decode (toJson x)) (cond x) (value x)) :
    Gives ((xs.map toJson).mapM decode) (∀ x ∈ xs, cond x) (xs.map value) := by
  induction xs with
  | nil =>
    exact (Gives.of_eq rfl).congr (iff_of_true trivial fun x hx => absurd hx List.not_mem_nil)
  | cons x xs ih =>
    obtain ⟨hx, hxs⟩ := List.forall_mem_cons.mp h
    rw [List.map_cons, List.mapM_cons, List.map_cons, List.forall_mem_cons]
    exact hx.bind ((ih hxs).bind_ok (value x :: ·))

theorem of_mapM {decode : γ → Except ε α} {js : List γ} {xs : List α}
    (h : js.mapM decode = .ok xs) : ∀ x ∈ xs, ∃ j, decode j = .ok x := by
  induction js generalizing xs with
  | nil =>
    cases h
    exact fun x hx => absurd hx List.not_mem_nil
  | cons j js ih =>
    rw [List.mapM_cons] at h
    obtain ⟨x, hx, h⟩ := of_bind_eq_ok h
    obtain ⟨rest, hrest, h⟩ := of_bind_eq_ok h
    cases h
    exact List.forall_mem_cons.mpr ⟨⟨j, hx⟩, ih hrest⟩

/-- The items of a list that is read have been read. -/
theorem of_list {item : Decoder α} {j : Json} {xs : List α} (h : list item j = .ok xs) :
    ∀ x ∈ xs, ∃ j, item j = .ok x := by
  unfold list at h
  split at h
  · exact of_mapM h
  · cases h

/-- A variant is read under its name. -/
theorem variant_str {ofName : String → Option α} {name : String} {v : α}
    (h : ofName name = some v) : variant ofName (.str name) = .ok v := by
  unfold variant variant.named
  simp only [h]

theorem nullable_of_ne_null (item : Decoder α) {j : Json} (h : j ≠ .null) :
    nullable item j = (item j).map some := by
  unfold nullable
  split
  · exact absurd rfl h
  · rfl

/-- What is read where null is allowed has been read. -/
theorem of_nullable {item : Decoder α} {j : Json} {value : Option α}
    (h : nullable item j = .ok value) : ∀ x ∈ value, item j = .ok x := by
  intro x hx
  by_cases hnull : j = .null
  · subst hnull
    cases h
    cases hx
  · rw [nullable_of_ne_null item hnull] at h
    obtain ⟨y, hy, rfl⟩ := of_map_eq_ok h
    rw [← Option.some.inj hx]
    exact hy

end Decode

/-- **Lists of values that round-trip do so**, if all of them can be read back. -/
theorem RoundTrips.list {decode : Decoder α} {toJson : α → Json} {good readsBack : α → Prop}
    {standard : α → α} (h : RoundTrips decode toJson good readsBack standard) :
    RoundTrips (Decode.list decode) (fun xs => .arr (xs.map toJson)) (fun xs => ∀ x ∈ xs, good x)
      (fun xs => ∀ x ∈ xs, readsBack x) (List.map standard) where
  written xs hxs := Decode.gives_mapM fun x hx => h.written x (hxs x hx)
  read j xs hread x hx := by
    obtain ⟨i, hi⟩ := Decode.of_list hread x hx
    exact h.read i x hi

/-! ## Records -/

namespace Record

variable {r : Record α} {f : Record (α → β)} {fs : Fields Json} {name : String}
  {item : Decoder α}

theorem ofFields_map {f : α → β} {y : β} (h : (f <$> r).ofFields fs = .ok y) :
    ∃ x, r.ofFields fs = .ok x ∧ f x = y :=
  of_map_eq_ok h

theorem ofFields_seq {y : β} (h : (f <*> r).ofFields fs = .ok y) :
    ∃ g x, f.ofFields fs = .ok g ∧ r.ofFields fs = .ok x ∧ g x = y := by
  obtain ⟨g, hg, h⟩ := of_bind_eq_ok h
  obtain ⟨x, hx, h⟩ := of_bind_eq_ok h
  cases h
  exact ⟨g, x, hg, hx, rfl⟩

theorem ofFields_map_ok {f : α → β} {x : α} (h : r.ofFields fs = .ok x) :
    (f <$> r).ofFields fs = .ok (f x) :=
  congrArg (Except.map f) h

theorem ofFields_seq_ok {g : α → β} {x : α} (hf : f.ofFields fs = .ok g)
    (h : r.ofFields fs = .ok x) : (f <*> r).ofFields fs = .ok (g x) := by
  change (f.ofFields fs >>= fun g => r.ofFields fs >>= fun x => .ok (g x)) = _
  rw [hf, h]
  rfl

/-! ### Checks -/

/-- What a record builds a value from has passed its checks. -/
def Lawful (r : Record α) : Prop :=
  ∀ fs x, r.ofFields fs = .ok x → ∀ name check j, Fields.get? name r.checks = some check →
    Fields.get? name fs = some j → check j = .ok ()

theorem Lawful.map {f : α → β} (h : r.Lawful) : (f <$> r).Lawful := by
  intro fs y hy
  obtain ⟨x, hx, -⟩ := ofFields_map hy
  exact h fs x hx

theorem Lawful.seq (hf : f.Lawful) (h : r.Lawful) : (f <*> r).Lawful := by
  intro fs y hy name check j hcheck hj
  obtain ⟨g, x, hg, hx, -⟩ := ofFields_seq hy
  have hcheck : Fields.get? name (f.checks ++ r.checks) = some check := hcheck
  rw [Fields.get?_append, Option.or_eq_some_iff] at hcheck
  rcases hcheck with hcheck | ⟨-, hcheck⟩
  · exact hf fs g hg name check j hcheck hj
  · exact h fs x hx name check j hcheck hj

/-- The check of a single field is to decode its value. -/
theorem lawful_field {field : Record α}
    (hchecks : field.checks = [(name, fun j => (item j).map fun _ => ())])
    (hfields : ∀ fs x j, field.ofFields fs = .ok x → Fields.get? name fs = some j →
      item j = .ok x) : field.Lawful := by
  intro fs x hx key check j hcheck hj
  rw [hchecks, Fields.get?] at hcheck
  split at hcheck
  · rename_i hname
    subst hname
    cases hcheck
    simp only [hfields fs x j hx hj]
    rfl
  · cases hcheck

theorem lawful_required (name : String) (item : Decoder α) : (required name item).Lawful := by
  refine lawful_field rfl fun fs x j hx hj => ?_
  unfold required at hx
  simp only [hj] at hx
  exact hx

theorem lawful_withDefault (name : String) (default : α) (item : Decoder α) :
    (withDefault name default item).Lawful := by
  refine lawful_field rfl fun fs x j hx hj => ?_
  unfold withDefault at hx
  simp only [hj] at hx
  exact hx

theorem lawful_optional (name : String) (item : Decoder α) : (optional name item).Lawful :=
  lawful_withDefault name none _

theorem checkFrom_eq_ok {seen : List String} (hfs : (Fields.keys fs).Nodup)
    (hseen : ∀ key ∈ Fields.keys fs, key ∉ seen)
    (h : ∀ key check j, Fields.get? key r.checks = some check → Fields.get? key fs = some j →
      check j = .ok ()) : r.checkFrom seen fs = .ok () := by
  induction fs generalizing seen with
  | nil => rfl
  | cons f fs ih =>
    obtain ⟨key, j⟩ := f
    obtain ⟨hfresh, hnodup⟩ := List.nodup_cons.mp hfs
    obtain ⟨hkey, hkeys⟩ := List.forall_mem_cons.mp hseen
    -- The fields that are left are found where they were.
    have hrest : ∀ key' check j', Fields.get? key' r.checks = some check →
        Fields.get? key' fs = some j' → check j' = .ok () := by
      intro key' check j' hcheck hj'
      have hmem : key' ∈ Fields.keys fs := Fields.mem_keys_iff.mpr ⟨j', hj'⟩
      have hne : key ≠ key' := fun heq => hfresh (heq ▸ hmem)
      exact h key' check j' hcheck (by rw [Fields.get?, if_neg hne, hj'])
    unfold checkFrom
    split
    · exact ih hnodup hkeys hrest
    · rename_i check hcheck
      have hpassed := h key check j hcheck (by rw [Fields.get?, if_pos rfl])
      rw [if_neg (by simpa using hkey), hpassed]
      refine ih hnodup (fun key' hkey' => ?_) hrest
      have hne : key' ≠ key := fun heq => hfresh (heq ▸ hkey')
      exact List.not_mem_cons_of_ne_of_not_mem hne (hkeys key' hkey')

theorem ofFields_of_decodeFields {x : α} (h : r.decodeFields fs = .ok x) :
    r.ofFields fs = .ok x := by
  obtain ⟨-, -, h⟩ := of_bind_eq_ok h
  exact h

/-- **Where no key is repeated, the fields that a value can be built from are decoded.** -/
theorem decodeFields_iff (hr : r.Lawful) (hfs : (Fields.keys fs).Nodup) {x : α} :
    r.decodeFields fs = .ok x ↔ r.ofFields fs = .ok x := by
  refine ⟨ofFields_of_decodeFields, fun h => ?_⟩
  unfold decodeFields
  rw [checkFrom_eq_ok hfs (fun _ _ => List.not_mem_nil) (hr fs x h)]
  exact h

/-! ### What a record gives -/

section Gives

variable {cond cond' : Prop} {a : α} {b : β}

theorem gives_decode (hr : r.Lawful) (hfs : (Fields.keys fs).Nodup)
    (h : Gives (r.ofFields fs) cond a) : Gives (r.decode (.obj fs)) cond a := by
  intro x
  rw [← h x]
  exact decodeFields_iff hr hfs

theorem gives_map (f : α → β) (h : Gives (r.ofFields fs) cond a) :
    Gives ((f <$> r).ofFields fs) cond (f a) :=
  h.map f

theorem gives_seq {g : α → β} (hf : Gives (f.ofFields fs) cond g)
    (h : Gives (r.ofFields fs) cond' a) : Gives ((f <*> r).ofFields fs) (cond ∧ cond') (g a) :=
  hf.bind (h.bind_ok g)

theorem ofFields_required {j : Json} (hget : Fields.get? name fs = some j) :
    (required name item).ofFields fs = item j := by
  unfold required
  simp only [hget]

theorem ofFields_withDefault {j : Json} (hget : Fields.get? name fs = some j) (default : α) :
    (withDefault name default item).ofFields fs = item j := by
  unfold withDefault
  simp only [hget]

/-- An optional field that is written if it is there. -/
theorem gives_optional {value : Option β} {toJson : β → Json} {readsBack : β → Prop}
    (standard : β → α) (hget : Fields.get? name fs = value.map toJson)
    (hnull : ∀ b, toJson b ≠ .null)
    (h : ∀ b ∈ value, Gives (item (toJson b)) (readsBack b) (standard b)) :
    Gives ((optional name item).ofFields fs) (∀ b ∈ value, readsBack b) (value.map standard) := by
  unfold optional withDefault
  simp only [hget]
  cases value with
  | none =>
    exact (Gives.of_eq rfl).congr
      (iff_of_true trivial fun b hb => absurd hb (Option.not_mem_none b))
  | some b =>
    simp only [Option.map_some]
    rw [Decode.nullable_of_ne_null item (hnull b)]
    refine ((h b rfl).map some).congr ⟨fun hb b' hb' => ?_, fun hall => hall b rfl⟩
    rw [← Option.mem_some.mp hb']
    exact hb

/-- An optional field that is written if it is there, and can always be read. -/
theorem ofFields_optional {value : Option α} (toJson : α → Json)
    (hget : Fields.get? name fs = value.map toJson) (hnull : ∀ a, toJson a ≠ .null)
    (h : ∀ a, item (toJson a) = .ok a) : (optional name item).ofFields fs = .ok value := by
  have hgives : Gives ((optional name item).ofFields fs) (∀ b ∈ value, True) (value.map id) :=
    gives_optional id hget hnull fun a _ => Gives.of_eq (h a)
  rw [Option.map_id] at hgives
  exact hgives.of_cond fun _ _ => trivial

/-- An optional field with any value; null counts as absent. -/
theorem ofFields_optional_value {value : Option Json} (hget : Fields.get? name fs = value)
    (h : ∀ j ∈ value, j.WellFormed) :
    (optional name Decode.value).ofFields fs = .ok (value.filter (· ≠ .null)) := by
  unfold optional withDefault
  simp only [hget]
  cases value with
  | none => rfl
  | some j =>
    simp only
    rw [Option.filter_some]
    by_cases hnull : j = .null
    · subst hnull
      rfl
    · rw [Decode.nullable_of_ne_null _ hnull, Decode.value, Json.normal_of_wellFormed j (h j rfl),
        if_pos (by simpa using hnull)]
      rfl

end Gives

/-! ### What a record builds -/

/-- All values that a record builds have a property. -/
structure Always (r : Record α) (P : α → Prop) : Prop where
  fields : ∀ fs x, r.ofFields fs = .ok x → P x
  items : ∀ xs x rest, r.ofItems xs = .ok (x, rest) → P x

namespace Always

variable {P : α → Prop} {Q : β → Prop}

/-- **What a record builds is what it decodes**, from objects and from arrays. -/
theorem of_decode (h : r.Always P) {j : Json} {x : α} (hx : r.decode j = .ok x) : P x := by
  unfold Record.decode at hx
  split at hx
  · exact h.fields _ x (ofFields_of_decodeFields hx)
  · obtain ⟨⟨a, rest⟩, hitems, hx⟩ := of_bind_eq_ok hx
    simp only at hx
    split at hx
    · cases hx
      exact h.items _ x rest hitems
    · cases hx
  · cases hx

theorem map {f : α → β} (h : r.Always P) (hf : ∀ x, P x → Q (f x)) : (f <$> r).Always Q where
  fields fs y hy := by
    obtain ⟨x, hx, rfl⟩ := ofFields_map hy
    exact hf x (h.fields fs x hx)
  items xs y rest hy := by
    obtain ⟨⟨x, _⟩, hx, hy⟩ := of_map_eq_ok hy
    cases hy
    exact hf x (h.items xs x rest hx)

theorem seq (h : r.Always P) (hf : f.Always fun g => ∀ x, P x → Q (g x)) :
    (f <*> r).Always Q where
  fields fs y hy := by
    obtain ⟨g, x, hg, hx, rfl⟩ := ofFields_seq hy
    exact hf.fields fs g hg x (h.fields fs x hx)
  items xs y rest hy := by
    obtain ⟨⟨g, xs'⟩, hg, hy⟩ := of_bind_eq_ok hy
    obtain ⟨⟨x, _⟩, hx, hy⟩ := of_bind_eq_ok hy
    cases hy
    exact hf.items xs g xs' hg x (h.items xs' x rest hx)

/-- A function whose results have a property whatever it is applied to. -/
theorem map_any {f : α → β} (hf : ∀ x, Q (f x)) : (f <$> r).Always Q :=
  Always.map (P := fun _ => True) ⟨fun _ _ _ => trivial, fun _ _ _ _ => trivial⟩ fun x _ => hf x

/-- An argument that does not matter. -/
theorem seq_any (hf : f.Always fun g => ∀ x, Q (g x)) : (f <*> r).Always Q :=
  Always.seq (P := fun _ => True) ⟨fun _ _ _ => trivial, fun _ _ _ _ => trivial⟩
    ⟨fun fs g hg x _ => hf.fields fs g hg x, fun xs g rest hg x _ => hf.items xs g rest hg x⟩

theorem required (h : ∀ j x, item j = .ok x → P x) : (required name item).Always P where
  fields fs x hx := by
    unfold Record.required at hx
    simp only at hx
    split at hx
    · exact h _ x hx
    · cases hx
  items xs x rest hx := by
    cases xs with
    | nil => cases hx
    | cons j xs =>
      obtain ⟨_, ha, hx⟩ := of_map_eq_ok hx
      cases hx
      exact h j _ ha

theorem withDefault {default : α} (hdefault : P default) (h : ∀ j x, item j = .ok x → P x) :
    (withDefault name default item).Always P where
  fields fs x hx := by
    unfold Record.withDefault at hx
    simp only at hx
    split at hx
    · exact h _ x hx
    · cases hx
      exact hdefault
  items xs x rest hx := by
    cases xs with
    | nil =>
      cases hx
      exact hdefault
    | cons j xs =>
      obtain ⟨_, ha, hx⟩ := of_map_eq_ok hx
      cases hx
      exact h j _ ha

theorem optional (h : ∀ j x, item j = .ok x → P x) :
    (optional name item).Always fun value => ∀ x ∈ value, P x :=
  withDefault nofun fun j _ hvalue x hx => h j x (Decode.of_nullable hvalue x hx)

end Always
end Record
end Outbox
