import Outbox.Action.Payload
import Outbox.Proofs.Decode

/-!
# Payloads, written and read

A payload is well formed if its further fields repeat no key, at any depth, and stand under none of
the known names. Such a payload is read as it was written (`Payload.decode_toJson`), and no other
kind of payload is ever read (`Payload.wellFormed_of_decode`).
-/

namespace Outbox

/-! ## Numbers -/

namespace Decode

theorem signed_int (n : Int64) : signed (.int n.toInt) = .ok n := by
  have hleast : minSigned ≤ n.toInt := n.le_toInt
  have hgreatest : n.toInt ≤ maxSigned := Int.le_of_lt_add_one n.toInt_lt
  unfold signed integer Json.int
  simp only
  rw [if_pos ⟨hleast, hgreatest⟩]
  exact congrArg Except.ok (Int64.ofInt_toInt n)

theorem unsigned_nat (n : UInt64) : unsigned (.nat n.toNat) = .ok n := by
  have hgreatest : (n.toNat : Int) ≤ maxUnsigned := by
    have hlt := n.toNat_lt
    unfold maxUnsigned
    omega
  unfold unsigned integer Json.nat
  simp only
  rw [if_pos ⟨Int.natCast_nonneg _, hgreatest⟩]
  exact congrArg Except.ok UInt64.ofNat_toNat

end Decode

namespace Payload

variable {p : Payload} {name : String}

/-! ## What is written -/

/-- The further fields repeat no key and stand under names of their own. -/
structure WellFormed (p : Payload) : Prop where
  extra : (Json.obj p.extra).WellFormed
  further : ∀ name ∈ Fields.keys p.extra, name ∉ knownNames

@[simp] theorem get?_stringField (name key : String) (value : Option String) :
    Fields.get? key (stringField name value) = if name = key then value.map .str else none :=
  Fields.get?_toList_map name key value Json.str

theorem keys_stringField (name : String) (value : Option String) :
    (Fields.keys (stringField name value)).Sublist [name] :=
  Fields.keys_toList_map name value Json.str

theorem keys_knownFields (p : Payload) : (Fields.keys p.knownFields).Sublist knownNames := by
  unfold knownFields
  simp only [Fields.keys_append]
  exact ((((((((keys_stringField _ _).append (keys_stringField _ _)).append
    (keys_stringField _ _)).append (keys_stringField _ _)).append (keys_stringField _ _)).append
    (keys_stringField _ _)).append (keys_stringField _ _)).append (keys_stringField _ _)).append
    (Fields.keys_toList_map _ _ fun v : UInt64 => Json.nat v.toNat)

theorem WellFormed.nodup (h : p.WellFormed) :
    (Fields.keys (p.knownFields ++ p.extra)).Nodup := by
  rw [Fields.keys_append]
  have hknown : (Fields.keys p.knownFields).Nodup := (keys_knownFields p).nodup (by decide)
  refine hknown.append (Json.wellFormed_obj_iff.mp h.extra).1 fun name hname hextra => ?_
  exact h.further name hextra ((keys_knownFields p).subset hname)

/-- A well-formed payload is written as it stands. -/
theorem WellFormed.toJson_eq (h : p.WellFormed) : p.toJson = .obj (p.knownFields ++ p.extra) := by
  unfold toJson
  rw [Fields.ofList_of_nodup h.nodup]

theorem wellFormed_of_mem_knownFields {f : String × Json} (h : f ∈ p.knownFields) :
    f.2.WellFormed := by
  have hstring : ∀ name value, f ∈ stringField name value → f.2.WellFormed := by
    intro name value hf
    obtain ⟨s, -, rfl⟩ := List.mem_map.mp hf
    exact trivial
  unfold knownFields at h
  simp only [List.mem_append] at h
  rcases h with (((((((h | h) | h) | h) | h) | h) | h) | h) | h
  all_goals first
    | exact hstring _ _ h
    | obtain ⟨v, -, rfl⟩ := List.mem_map.mp h
      exact trivial

/-- What is written is well formed, whatever the further fields are called. -/
theorem wellFormed_toJson (h : (Json.obj p.extra).WellFormed) : p.toJson.WellFormed := by
  unfold toJson
  refine Json.wellFormed_obj_iff.mpr ⟨Fields.nodup_keys_ofList _, fun f hf => ?_⟩
  rcases List.mem_append.mp (Fields.of_mem_ofList hf) with hf | hf
  · exact wellFormed_of_mem_knownFields hf
  · exact (Json.wellFormed_obj_iff.mp h).2 f hf

/-! ## What is read -/

theorem known_lawful : known.Lawful := by
  unfold known
  iterate 8 refine Record.Lawful.seq ?_ (Record.lawful_optional _ _)
  exact (Record.lawful_optional _ _).map

/-- A known name is not found among the further fields. -/
theorem WellFormed.get?_append (h : p.WellFormed) (hname : name ∈ knownNames) :
    Fields.get? name (p.knownFields ++ p.extra) = Fields.get? name p.knownFields := by
  have hnone := Fields.get?_eq_none_iff.mpr fun hmem => h.further name hmem hname
  rw [Fields.get?_append, hnone, Option.or_none]

/-- The known fields are read where they were written. -/
theorem ofFields_known (h : p.WellFormed) :
    known.ofFields (p.knownFields ++ p.extra) = .ok (fun extra => { p with extra }) := by
  have hstring : ∀ name value, name ∈ knownNames →
      Fields.get? name p.knownFields = value.map Json.str →
      (Record.optional name Decode.string).ofFields (p.knownFields ++ p.extra) = .ok value := by
    intro name value hname hget
    rw [← h.get?_append hname] at hget
    exact Record.ofFields_optional Json.str hget nofun fun _ => rfl
  have htopicId := hstring "topicId" p.topicId (by decide) (by simp [knownFields])
  have hpostId := hstring "postId" p.postId (by decide) (by simp [knownFields])
  have huserId := hstring "userId" p.userId (by decide) (by simp [knownFields])
  have hcontent := hstring "content" p.content (by decide) (by simp [knownFields])
  have hreplyTo := hstring "replyTo" p.replyTo (by decide) (by simp [knownFields])
  have hquotedPost := hstring "quotedPost" p.quotedPost (by decide) (by simp [knownFields])
  have hentityType := hstring "entityType" p.entityType (by decide) (by simp [knownFields])
  have hentityId := hstring "entityId" p.entityId (by decide) (by simp [knownFields])
  have hversion : (Record.optional "version" Decode.unsigned).ofFields
      (p.knownFields ++ p.extra) = .ok p.version := by
    refine Record.ofFields_optional (fun v => .nat v.toNat) ?_ nofun Decode.unsigned_nat
    rw [h.get?_append (by decide)]
    simp [knownFields]
  exact Record.ofFields_seq_ok (Record.ofFields_seq_ok (Record.ofFields_seq_ok
    (Record.ofFields_seq_ok (Record.ofFields_seq_ok (Record.ofFields_seq_ok
      (Record.ofFields_seq_ok (Record.ofFields_seq_ok (Record.ofFields_map_ok htopicId) hpostId)
        huserId) hcontent) hreplyTo) hquotedPost) hentityType) hentityId) hversion

/-- The further fields that are read from an object. -/
def furtherFields (fs : Fields Json) : Fields Json :=
  Fields.ofList ((Json.normalFields fs).filter fun f => !knownNames.contains f.1)

theorem decode_obj {fs : Fields Json} {build : Fields Json → Payload}
    (h : known.decodeFields fs = .ok build) :
    decode (.obj fs) = .ok (build (furtherFields fs)) := by
  unfold decode
  simp only [h]
  rfl

/-- **A well-formed payload is read as it was written.** -/
theorem decode_toJson (h : p.WellFormed) : decode p.toJson = .ok p := by
  have hextra := Json.wellFormed_obj_iff.mp h.extra
  have hfields : Json.WellFormedFields (p.knownFields ++ p.extra) := by
    have hwhole := wellFormed_toJson h.extra
    rw [h.toJson_eq, Json.wellFormed_obj_iff] at hwhole
    exact Json.wellFormedFields_iff.mpr hwhole.2
  have hbuild := (Record.decodeFields_iff known_lawful h.nodup).mpr (ofFields_known h)
  have hknown : p.knownFields.filter (fun f => !knownNames.contains f.1) = [] := by
    refine List.filter_eq_nil_iff.mpr fun f hf => ?_
    have hmem := (keys_knownFields p).subset (List.mem_map_of_mem (f := Prod.fst) hf)
    simpa using hmem
  have hfurther : p.extra.filter (fun f => !knownNames.contains f.1) = p.extra := by
    refine List.filter_eq_self.mpr fun f hf => ?_
    have hfresh := h.further f.1 (List.mem_map_of_mem (f := Prod.fst) hf)
    simpa using hfresh
  rw [h.toJson_eq, decode_obj hbuild, furtherFields, Json.normalFields_of_wellFormed _ hfields,
    List.filter_append, hknown, hfurther, List.nil_append, Fields.ofList_of_nodup hextra.1]

/-- What is built from the known fields differs in the further ones only. -/
theorem known_always :
    known.Always fun build => ∀ extra other, { build extra with extra := other } = build other := by
  unfold known
  iterate 8 refine Record.Always.seq_any ?_
  exact Record.Always.map_any fun _ _ _ _ _ _ _ _ _ _ _ => rfl

/-- **A payload is read from an object**: its known fields, and the others as they are. -/
theorem of_decode {j : Json} (h : decode j = .ok p) :
    ∃ fs, j = .obj fs ∧ known.ofFields fs = .ok (fun extra => { p with extra }) ∧
      p.extra = furtherFields fs := by
  unfold decode at h
  split at h
  · rename_i fs
    obtain ⟨build, hbuild, h⟩ := of_bind_eq_ok h
    have hfields := Record.ofFields_of_decodeFields hbuild
    have hextra := known_always.fields fs build hfields (furtherFields fs)
    have hp : build (furtherFields fs) = p := Except.ok.inj h
    rw [hp] at hextra
    refine ⟨fs, rfl, ?_, ?_⟩
    · rw [hfields, funext hextra]
    · have hsame := congrArg Payload.extra (hextra (furtherFields fs))
      rw [hp] at hsame
      exact hsame.symm
  · cases h

/-- **What is read is well formed.** -/
theorem wellFormed_of_decode {j : Json} (h : decode j = .ok p) : p.WellFormed := by
  obtain ⟨fs, -, -, hextra⟩ := of_decode h
  have hmem : ∀ f ∈ p.extra, f ∈ Json.normalFields fs ∧ f.1 ∉ knownNames := by
    intro f hf
    rw [hextra, furtherFields] at hf
    have hf := List.mem_filter.mp (Fields.of_mem_ofList hf)
    exact ⟨hf.1, by simpa using hf.2⟩
  refine ⟨Json.wellFormed_obj_iff.mpr ⟨?_, fun f hf => ?_⟩, fun name hname => ?_⟩
  · rw [hextra]
    exact Fields.nodup_keys_ofList _
  · exact Json.forall_wellFormed_normal fs f (hmem f hf).1
  · obtain ⟨f, hf, rfl⟩ := List.mem_map.mp hname
    exact (hmem f hf).2

end Payload
end Outbox
