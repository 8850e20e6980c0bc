import Outbox.Proofs.Action.Same

/-!
# Which objects are payloads

A value is read as a payload exactly if it is an object whose known fields hold nothing but null or
a value of their type (`Payload.Fits`). Null counts as absent there, and only there: the further
fields are taken over as they stand. So writing what was read gives the object back, without the
known fields that are null and with the others first, and the order of the keys in an object settles
the order of the further fields and nothing else (`Payload.codec`).

* `Record.gives_optional_at`: when an optional field is read, and as what.
* `Payload.gives_decode`: when an object is read, and as what.
* `Payload.knownFields_read`: the known fields that are written are those that were there.
-/

namespace Outbox

variable {α : Type}

/-! ## Optional fields -/

/-- **An optional field is read** if it is absent, null, or of its type. -/
theorem Record.gives_optional_at {item : Decoder α} (hnull : ∀ x, item .null ≠ .ok x)
    (name : String) (fs : Fields Json) :
    Gives ((optional name item).ofFields fs)
      (∀ j, Fields.get? name fs = some j → j = .null ∨ ∃ x, item j = .ok x)
      ((Fields.get? name fs).bind fun j => (item j).toOption) := by
  unfold optional withDefault
  simp only
  cases hget : Fields.get? name fs with
  | none =>
    refine (Gives.of_eq rfl).congr (iff_of_true trivial fun j hj => ?_)
    cases hj
  | some j =>
    simp only [Option.bind_some, Option.some.injEq, forall_eq']
    by_cases hj : j = .null
    · subst hj
      have hnone : (item .null).toOption = none := by
        cases h : item .null with
        | error e => rfl
        | ok x => exact absurd h (hnull x)
      rw [hnone]
      exact (Gives.of_eq rfl).congr (iff_of_true trivial (Or.inl rfl))
    · rw [Decode.nullable_of_ne_null item hj]
      cases hitem : item j with
      | error e =>
        refine fun x => iff_of_false (fun h => ?_) fun h => h.1.elim hj ?_
        · cases h
        · rintro ⟨y, hy⟩
          cases hy
      | ok x => exact (Gives.of_eq rfl).congr (iff_of_true trivial (Or.inr ⟨x, rfl⟩))

namespace Decode

theorem string_eq_ok {j : Json} {s : String} : string j = .ok s ↔ j = .str s := by
  cases j <;> simp [string]

/-- What is read as an unsigned integer is written as it was. -/
theorem unsigned_eq_ok {j : Json} {n : UInt64} : unsigned j = .ok n ↔ j = .nat n.toNat := by
  refine ⟨fun h => ?_, fun h => h ▸ unsigned_nat n⟩
  obtain ⟨k, hk, rfl⟩ := of_map_eq_ok h
  unfold integer at hk
  split at hk
  · split at hk
    · rename_i hrange
      cases hk
      have hlt : k.toNat < UInt64.size := by
        have hgreatest := hrange.2
        unfold maxUnsigned at hgreatest
        rw [show UInt64.size = 2 ^ 64 from rfl]
        omega
      have hword : (UInt64.ofNat k.toNat).toNat = k.toNat := UInt64.toNat_ofNat_of_lt hlt
      unfold Json.nat
      rw [hword, Int.toNat_of_nonneg hrange.1]
    · cases hk
  · cases hk

end Decode

namespace Payload

variable {p : Payload} {fs gs : Fields Json}

/-! ## What is accepted -/

/-- What a known field may hold: null, or a value of its type. -/
def Fits (name : String) : Json → Prop
  | .null => True
  | .str _ => name ≠ "version"
  | .num (.integer n) => name = "version" ∧ 0 ≤ n ∧ n ≤ maxUnsigned
  | _ => False

/-- All known fields of an object hold what they may. -/
def Acceptable (fs : Fields Json) : Prop :=
  ∀ name ∈ knownNames, ∀ j, Fields.get? name fs = some j → Fits name j

theorem fits_string {name : String} (hname : name ≠ "version") (j : Json) :
    Fits name j ↔ j = .null ∨ ∃ s, Decode.string j = .ok s := by
  cases j with
  | num n => cases n <;> simp [Fits, Decode.string, hname]
  | _ => simp [Fits, Decode.string, hname]

theorem fits_version (j : Json) :
    Fits "version" j ↔ j = .null ∨ ∃ n, Decode.unsigned j = .ok n := by
  cases j with
  | num n =>
    cases n with
    | double d => simp [Fits, Decode.unsigned, Decode.integer, Except.map]
    | integer n =>
      simp only [Fits, true_and, reduceCtorEq, false_or, Decode.unsigned, Decode.integer]
      split
      · rename_i hrange
        exact iff_of_true hrange ⟨_, rfl⟩
      · rename_i hrange
        exact iff_of_false hrange nofun
  | _ => simp [Fits, Decode.unsigned, Decode.integer, Except.map]

/-- The string at a name, if there is one. -/
def textAt (name : String) (fs : Fields Json) : Option String :=
  (Fields.get? name fs).bind fun j => (Decode.string j).toOption

/-- The payload that is read from an object. -/
def ofFields (fs : Fields Json) : Payload where
  topicId := textAt "topicId" fs
  postId := textAt "postId" fs
  userId := textAt "userId" fs
  content := textAt "content" fs
  replyTo := textAt "replyTo" fs
  quotedPost := textAt "quotedPost" fs
  entityType := textAt "entityType" fs
  entityId := textAt "entityId" fs
  version := (Fields.get? "version" fs).bind fun j => (Decode.unsigned j).toOption
  extra := furtherFields fs

/-- **An object is read as a payload exactly if its known fields hold what they may.** -/
theorem gives_decode (h : (Fields.keys fs).Nodup) :
    Gives (decode (.obj fs)) (Acceptable fs) (ofFields fs) := by
  have hstring : ∀ name, name ≠ "version" → Gives ((Record.optional name Decode.string).ofFields fs)
      (∀ j, Fields.get? name fs = some j → Fits name j) (textAt name fs) := by
    intro name hname
    refine (Record.gives_optional_at nofun name fs).congr ?_
    simp only [fits_string hname]
  have hversion : Gives ((Record.optional "version" Decode.unsigned).ofFields fs)
      (∀ j, Fields.get? "version" fs = some j → Fits "version" j) (ofFields fs).version := by
    refine (Record.gives_optional_at nofun "version" fs).congr ?_
    simp only [fits_version]
  have hknown : Gives (known.ofFields fs) (Acceptable fs)
      (fun extra => { ofFields fs with extra }) := by
    have hall := Record.gives_seq (Record.gives_seq (Record.gives_seq (Record.gives_seq
      (Record.gives_seq (Record.gives_seq (Record.gives_seq (Record.gives_seq
        (Record.gives_map Payload.mk (hstring "topicId" (by decide)))
        (hstring "postId" (by decide))) (hstring "userId" (by decide)))
        (hstring "content" (by decide))) (hstring "replyTo" (by decide)))
        (hstring "quotedPost" (by decide))) (hstring "entityType" (by decide)))
        (hstring "entityId" (by decide))) hversion
    refine Gives.congr hall ?_
    simp only [Acceptable, knownNames, List.forall_mem_cons, List.not_mem_nil, false_implies,
      implies_true, and_true, and_assoc]
  have hfields : Gives (known.decodeFields fs) (Acceptable fs)
      (fun extra => { ofFields fs with extra }) := by
    intro build
    rw [Record.decodeFields_iff known_lawful h]
    exact hknown build
  exact hfields.bind_ok fun build => build (furtherFields fs)

/-! ## What is written back -/

/-- The known fields of an object that are not null, in the order of declaration. -/
def presentFields (fs : Fields Json) : Fields Json :=
  knownNames.filterMap fun name =>
    ((Fields.get? name fs).filter (· ≠ .null)).map fun j => (name, j)

/-- A field that was read is written as it was, unless it was null. -/
theorem written_back {item : Decoder α} {toJson : α → Json} {name : String}
    (hitem : ∀ j x, item j = .ok x ↔ j = toJson x) (hnull : ∀ x, toJson x ≠ .null)
    (h : ∀ j, Fields.get? name fs = some j → j = .null ∨ ∃ x, item j = .ok x) :
    (((Fields.get? name fs).bind fun j => (item j).toOption).toList.map fun x => (name, toJson x)) =
      (((Fields.get? name fs).filter (· ≠ .null)).map fun j => (name, j)).toList := by
  cases hget : Fields.get? name fs with
  | none => rfl
  | some j =>
    rw [Option.bind_some]
    rcases h j hget with rfl | ⟨x, hx⟩
    · cases hread : item .null with
      | error e => rfl
      | ok x => exact absurd ((hitem _ x).mp hread).symm (hnull x)
    · obtain rfl := (hitem j x).mp hx
      have hkept : (some (toJson x)).filter (· ≠ .null) = some (toJson x) :=
        Option.filter_some_pos (decide_eq_true (hnull x))
      rw [hx, hkept]
      rfl

/-- **The known fields that are written are those that were there** and not null. -/
theorem knownFields_read (h : Acceptable fs) : (ofFields fs).knownFields = presentFields fs := by
  have hstring : ∀ name ∈ knownNames, name ≠ "version" →
      stringField name (textAt name fs) =
        (((Fields.get? name fs).filter (· ≠ .null)).map fun j => (name, j)).toList :=
    fun name hmem hname => written_back (fun _ _ => Decode.string_eq_ok) nofun fun j hj =>
      (fits_string hname j).mp (h name hmem j hj)
  have hversion : ∀ j, Fields.get? "version" fs = some j →
      j = .null ∨ ∃ x, Decode.unsigned j = .ok x := fun j hj =>
    (fits_version j).mp (h "version" (by decide) j hj)
  have hwritten := written_back (fun _ _ => Decode.unsigned_eq_ok) nofun hversion
  unfold knownFields presentFields ofFields
  rw [List.filterMap_eq_flatMap_toList]
  simp only [hwritten, knownNames, List.flatMap_cons, List.flatMap_nil, List.append_nil,
    List.append_assoc]
  rw [hstring "topicId" (by decide) (by decide), hstring "postId" (by decide) (by decide),
    hstring "userId" (by decide) (by decide), hstring "content" (by decide) (by decide),
    hstring "replyTo" (by decide) (by decide), hstring "quotedPost" (by decide) (by decide),
    hstring "entityType" (by decide) (by decide), hstring "entityId" (by decide) (by decide)]

theorem mem_presentFields {f : String × Json} :
    f ∈ presentFields fs ↔
      f.1 ∈ knownNames ∧ Fields.get? f.1 fs = some f.2 ∧ f.2 ≠ .null := by
  obtain ⟨key, j⟩ := f
  unfold presentFields
  simp [List.mem_filterMap, Option.filter_eq_some_iff]

/-- The further fields of an object are those under other names, as they stand. -/
theorem furtherFields_eq (h : (Json.obj fs).WellFormed) :
    furtherFields fs = fs.filter fun f => f.1 ∉ knownNames := by
  obtain ⟨hkeys, hvalues⟩ := Json.wellFormed_obj_iff.mp h
  have hfilter : (fs.filter fun f => !knownNames.contains f.1) =
      fs.filter fun f => f.1 ∉ knownNames :=
    List.filter_congr fun f _ => by simp
  have hnodup : (Fields.keys (fs.filter fun f => f.1 ∉ knownNames)).Nodup :=
    hkeys.sublist (List.filter_sublist.map Prod.fst)
  unfold furtherFields
  rw [Json.normalFields_of_wellFormed fs (Json.wellFormedFields_iff.mpr hvalues), hfilter,
    Fields.ofList_of_nodup hnodup]

/-- **What is written back is the object without the known fields that are null.** -/
theorem written_perm (h : (Json.obj fs).WellFormed) :
    (presentFields fs ++ fs.filter fun f => f.1 ∉ knownNames).Perm
      (fs.filter fun f => f.1 ∉ knownNames ∨ f.2 ≠ .null) := by
  obtain ⟨hkeys, -⟩ := Json.wellFormed_obj_iff.mp h
  have hfields : fs.Nodup := hkeys.of_map
  have hpresent : (presentFields fs).Nodup := by
    unfold presentFields
    refine List.Nodup.filterMap (fun name name' f hf hf' => ?_) (by decide)
    obtain ⟨j, -, rfl⟩ := Option.map_eq_some_iff.mp hf
    obtain ⟨j', -, heq⟩ := Option.map_eq_some_iff.mp hf'
    exact (congrArg Prod.fst heq).symm
  have hdisjoint : List.Disjoint (presentFields fs) (fs.filter fun f => f.1 ∉ knownNames) :=
    fun f hf hf' => absurd (mem_presentFields.mp hf).1 (by simpa using (List.mem_filter.mp hf').2)
  refine (List.perm_ext_iff_of_nodup (hpresent.append (hfields.filter _) hdisjoint)
    (hfields.filter _)).mpr fun f => ?_
  have hget : Fields.get? f.1 fs = some f.2 ↔ f ∈ fs :=
    ⟨Fields.mem_of_get?, Fields.get?_of_mem hkeys⟩
  rw [List.mem_append, mem_presentFields, hget, List.mem_filter, List.mem_filter]
  by_cases hname : f.1 ∈ knownNames <;> simp [hname]

/-- The order of the keys settles the order of the further fields, and nothing else. -/
theorem ofFields_perm (h : (Json.obj fs).WellFormed) (hperm : gs.Perm fs) :
    (Acceptable gs ↔ Acceptable fs) ∧
      { ofFields gs with extra := (ofFields fs).extra } = ofFields fs ∧
      (ofFields gs).extra.Perm (ofFields fs).extra := by
  obtain ⟨hkeys, hvalues⟩ := Json.wellFormed_obj_iff.mp h
  have hgs : (Json.obj gs).WellFormed := Json.wellFormed_obj_iff.mpr
    ⟨(hperm.map Prod.fst).nodup_iff.mpr hkeys, fun f hf => hvalues f (hperm.mem_iff.mp hf)⟩
  refine ⟨?_, ?_, ?_⟩
  · simp only [Acceptable, Fields.get?_perm hkeys hperm]
  · simp only [ofFields, textAt, Fields.get?_perm hkeys hperm]
  · unfold ofFields
    simp only [furtherFields_eq h, furtherFields_eq hgs]
    exact hperm.filter _

/-! ## The two directions -/

theorem ofJson_eq_ok {j : Json} : ofJson j = .ok p ↔ decode j = .ok p := by
  unfold ofJson
  cases decode j <;> simp [Except.mapError]

/-- What is read from an object: its further fields as they stand, and of the known ones those that
are not null. -/
structure ReadFrom (p : Payload) (fs : Fields Json) : Prop where
  extra : p.extra = fs.filter fun f => f.1 ∉ knownNames
  /-- The known fields come first, in the order of declaration. -/
  written : p.toJson = .obj (presentFields fs ++ p.extra)
  /-- Nothing is lost but the known fields that are null. -/
  whole : (presentFields fs ++ p.extra).Perm (fs.filter fun f => f.1 ∉ knownNames ∨ f.2 ≠ .null)
  /-- With the keys in another order, the further fields are in that order. -/
  reordered : ∀ gs : Fields Json, gs.Perm fs → ∃ q, ofJson (.obj gs) = .ok q ∧
    { q with extra := p.extra } = p ∧ q.extra.Perm p.extra

/-- **Reading and writing payloads.** A value without repeated keys is read as a payload exactly if
it is an object whose known fields are null or of their types, and an object with the same fields in
another order is read as the same payload, but for the order of the further fields. What is written
back is the object without the known fields that are null. And a payload whose further fields have
names of their own is read as it was written. -/
theorem codec :
    (∀ v : Json, v.WellFormed →
      ((∃ p, ofJson v = .ok p) ↔ ∃ fs, v = .obj fs ∧ Acceptable fs)) ∧
    (∀ (fs : Fields Json) (p : Payload), (Json.obj fs).WellFormed → ofJson (.obj fs) = .ok p →
      p.ReadFrom fs) ∧
    ∀ p : Payload, p.WellFormed → ofJson p.toJson = .ok p := by
  refine ⟨fun v hv => ⟨?_, ?_⟩, fun fs p hfs hp => ?_, fun p hp => ?_⟩
  · rintro ⟨p, hp⟩
    obtain ⟨fs, rfl, -⟩ := of_decode (ofJson_eq_ok.mp hp)
    have hgives := gives_decode (Json.wellFormed_obj_iff.mp hv).1
    exact ⟨fs, rfl, ((hgives p).mp (ofJson_eq_ok.mp hp)).1⟩
  · rintro ⟨fs, rfl, haccepted⟩
    have hgives := gives_decode (Json.wellFormed_obj_iff.mp hv).1
    exact ⟨_, ofJson_eq_ok.mpr (hgives.of_cond haccepted)⟩
  · have hread := ofJson_eq_ok.mp hp
    obtain ⟨haccepted, rfl⟩ := (gives_decode (Json.wellFormed_obj_iff.mp hfs).1 p).mp hread
    have hextra : (ofFields fs).extra = fs.filter fun f => f.1 ∉ knownNames := furtherFields_eq hfs
    refine ⟨hextra, ?_, ?_, fun gs hperm => ?_⟩
    · rw [(wellFormed_of_decode hread).toJson_eq, knownFields_read haccepted]
    · rw [hextra]
      exact written_perm hfs
    · obtain ⟨hiff, hknown, hfurther⟩ := ofFields_perm hfs hperm
      have hgs : (Fields.keys gs).Nodup :=
        (hperm.map Prod.fst).nodup_iff.mpr (Json.wellFormed_obj_iff.mp hfs).1
      have hread := ofJson_eq_ok.mpr ((gives_decode hgs).of_cond (hiff.mpr haccepted))
      exact ⟨_, hread, hknown, hfurther⟩
  · exact ofJson_eq_ok.mpr (decode_toJson hp)

/-- A draft of a post, with a known field that is null and a further one that is. -/
def sampleDraft : Fields Json :=
  [("pinned", .null), ("version", .nat 3), ("topicId", .null), ("content", .str "hi")]

theorem codec_sample :
    (Json.obj sampleDraft).WellFormed ∧ Acceptable sampleDraft ∧
      ∃ p, ofJson (.obj sampleDraft) = .ok p ∧ p.ReadFrom sampleDraft ∧ p.WellFormed ∧
        p.toJson = .obj [("content", .str "hi"), ("version", .nat 3), ("pinned", .null)] ∧
        ofJson p.toJson = .ok p := by
  have hdraft : (Json.obj sampleDraft).WellFormed := by
    simp [sampleDraft, Json.WellFormed, Json.WellFormedFields, Fields.keys, Json.nat]
  have hread : ofJson (.obj sampleDraft) = .ok (ofFields sampleDraft) := by decide +kernel
  have hgood := wellFormed_of_decode (ofJson_eq_ok.mp hread)
  obtain ⟨haccepts, hreads, hwrites⟩ := codec
  obtain ⟨fs, hfs, haccepted⟩ := (haccepts _ hdraft).mp ⟨_, hread⟩
  cases hfs
  exact ⟨hdraft, haccepted, _, hread, hreads _ _ hdraft hread, hgood, by decide +kernel,
    hwrites _ hgood⟩

end Payload
end Outbox
