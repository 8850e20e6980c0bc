import Outbox.Proofs.Action.Payload
import Outbox.Remote.Ask

/-!
# Payloads that are the same

Payloads are the same if their known fields are equal and their further fields are the same as JSON.
Objects that are the same are read as payloads that are the same (`Payload.exists_decode_same`), and
no difference between the two is left that a remote system could see (`Operation.ofAction_congr`).

A further field stays what it was when it is read (`Payload.get?_extra`), so payloads that are the
same come from objects that agree under all names but the known ones.
-/

namespace Outbox

variable {α β : Type}

/-! ## Decoders and records -/

/-- Values that are the same give equal results. -/
def Decoder.Respects (item : Decoder α) : Prop := ∀ x y : Json, x.same y = true → item x = item y

namespace Decode

theorem respects_string : Decoder.Respects string := by
  intro x y h
  unfold Json.same at h
  split at h <;> first
    | rfl
    | cases h
    | rw [eq_of_beq h]

theorem respects_unsigned : Decoder.Respects unsigned := by
  intro x y h
  unfold Json.same at h
  split at h <;> try first | rfl | cases h
  rename_i m n
  unfold Number.same at h
  split at h
  · rw [eq_of_beq h]
  · rfl
  · cases h

theorem respects_nullable {item : Decoder α} (h : Decoder.Respects item) :
    Decoder.Respects (nullable item) := by
  intro x y hsame
  by_cases hx : x = .null
  · subst hx
    cases y with
    | null => rfl
    | _ => cases hsame
  · have hy : y ≠ .null := by
      rintro rfl
      cases x <;> first | exact hx rfl | cases hsame
    rw [nullable_of_ne_null item hx, nullable_of_ne_null item hy, h x y hsame]

end Decode

namespace Record

/-- A record sees no difference between objects that are the same. -/
def Respects (r : Record α) : Prop :=
  ∀ fs gs, (∀ key, Json.sameAt (Fields.get? key fs) (Fields.get? key gs) = true) →
    r.ofFields fs = r.ofFields gs

theorem Respects.map {r : Record α} (h : r.Respects) (f : α → β) : (f <$> r).Respects :=
  fun fs gs hsame => congrArg (Except.map f) (h fs gs hsame)

theorem Respects.seq {f : Record (α → β)} {r : Record α} (hf : f.Respects) (h : r.Respects) :
    (f <*> r).Respects := by
  intro fs gs hsame
  change (f.ofFields fs >>= fun g => r.ofFields fs >>= fun x => .ok (g x)) =
    (f.ofFields gs >>= fun g => r.ofFields gs >>= fun x => .ok (g x))
  rw [hf fs gs hsame, h fs gs hsame]

theorem respects_optional (name : String) {item : Decoder α} (h : item.Respects) :
    (optional name item).Respects := by
  intro fs gs hsame
  have hname := hsame name
  unfold optional withDefault
  simp only
  cases hx : Fields.get? name fs with
  | none =>
    cases hy : Fields.get? name gs with
    | none => rfl
    | some y =>
      rw [hx, hy] at hname
      cases hname
  | some x =>
    cases hy : Fields.get? name gs with
    | none =>
      rw [hx, hy] at hname
      cases hname
    | some y =>
      rw [hx, hy] at hname
      exact Decode.respects_nullable h x y hname

end Record

/-! ## Payloads -/

namespace Payload

variable {p q : Payload} {fs gs : Fields Json}

/-- The equality of payloads. -/
structure Same (p q : Payload) : Prop where
  known : { p with extra := [] } = { q with extra := [] }
  extra : (Json.obj p.extra).same (.obj q.extra) = true

theorem known_respects : Payload.known.Respects := by
  have hstring : ∀ name, (Record.optional name Decode.string).Respects := fun name =>
    Record.respects_optional name Decode.respects_string
  unfold Payload.known
  refine Record.Respects.seq ?_ (Record.respects_optional _ Decode.respects_unsigned)
  iterate 7 refine Record.Respects.seq ?_ (hstring _)
  exact (hstring _).map _

/-- A further field is read as it stands in the object. -/
theorem get?_furtherFields (h : (Json.obj fs).WellFormed) (key : String) :
    Fields.get? key (furtherFields fs) =
      if key ∈ knownNames then none else Fields.get? key fs := by
  obtain ⟨hkeys, hvalues⟩ := Json.wellFormed_obj_iff.mp h
  have hfilter : (Fields.keys (fs.filter fun f => !knownNames.contains f.1)).Nodup :=
    hkeys.sublist ((List.filter_sublist).map Prod.fst)
  unfold furtherFields
  rw [Json.normalFields_of_wellFormed fs (Json.wellFormedFields_iff.mpr hvalues),
    Fields.ofList_of_nodup hfilter]
  split
  · rename_i hknown
    refine Fields.get?_eq_none_iff.mpr fun hmem => ?_
    obtain ⟨f, hf, rfl⟩ := List.mem_map.mp hmem
    simpa [hknown] using (List.mem_filter.mp hf).2
  · rename_i hfurther
    cases hget : Fields.get? key fs with
    | none =>
      refine Fields.get?_eq_none_iff.mpr fun hmem => ?_
      obtain ⟨f, hf, rfl⟩ := List.mem_map.mp hmem
      exact Fields.get?_eq_none_iff.mp hget (List.mem_map_of_mem (List.mem_filter.mp hf).1)
    | some x =>
      refine Fields.get?_of_mem hfilter (List.mem_filter.mpr ⟨Fields.mem_of_get? hget, ?_⟩)
      simpa using hfurther

theorem get?_extra (h : (Json.obj fs).WellFormed) (hp : decode (.obj fs) = .ok p) (key : String) :
    Fields.get? key p.extra = if key ∈ knownNames then none else Fields.get? key fs := by
  obtain ⟨gs, hgs, -, hextra⟩ := of_decode hp
  cases hgs
  rw [hextra, get?_furtherFields h]

/-- **Objects that are the same are read as payloads that are the same.** -/
theorem exists_decode_same (hfs : (Json.obj fs).WellFormed) (hgs : (Json.obj gs).WellFormed)
    (hsame : ∀ key, Json.sameAt (Fields.get? key fs) (Fields.get? key gs) = true)
    (hp : decode (.obj gs) = .ok p) : ∃ q, decode (.obj fs) = .ok q ∧ q.Same p := by
  have hread := hp
  obtain ⟨gs', hgs', hknown, -⟩ := of_decode hp
  cases hgs'
  rw [← known_respects fs gs hsame] at hknown
  have hkeys := (Json.wellFormed_obj_iff.mp hfs).1
  have hdecoded := decode_obj ((Record.decodeFields_iff known_lawful hkeys).mpr hknown)
  refine ⟨_, hdecoded, rfl, ?_⟩
  have hq := wellFormed_of_decode hdecoded
  have hp := wellFormed_of_decode hread
  rw [Json.same_obj_iff (Json.wellFormed_obj_iff.mp hq.extra).1
    (Json.wellFormed_obj_iff.mp hp.extra).1]
  intro key
  rw [get?_extra hfs hdecoded, get?_extra hgs hread]
  split
  · rfl
  · exact hsame key

/-- Payloads that are the same were read from objects that agree on all further names. -/
theorem Same.sameAt (hfs : (Json.obj fs).WellFormed) (hgs : (Json.obj gs).WellFormed)
    (hp : decode (.obj fs) = .ok p) (hq : decode (.obj gs) = .ok q) (h : p.Same q) {key : String}
    (hkey : key ∉ knownNames) :
    Json.sameAt (Fields.get? key fs) (Fields.get? key gs) = true := by
  have hsame := h.extra
  rw [Json.same_obj_iff (Json.wellFormed_obj_iff.mp (wellFormed_of_decode hp).extra).1
    (Json.wellFormed_obj_iff.mp (wellFormed_of_decode hq).extra).1] at hsame
  have hkeyed := hsame key
  rw [get?_extra hfs hp, get?_extra hgs hq, if_neg hkey, if_neg hkey] at hkeyed
  exact hkeyed

end Payload

/-- The operation of an action is in its kind and the known fields of its payload. -/
theorem Operation.ofAction_congr {a b : Action} (hkind : a.kind = b.kind)
    (h : a.payload.Same b.payload) : ofAction a = ofAction b := by
  have hcontent : a.payload.content = b.payload.content := by injection h.known
  have htopicId : a.payload.topicId = b.payload.topicId := by injection h.known
  have hpostId : a.payload.postId = b.payload.postId := by injection h.known
  have hreplyTo : a.payload.replyTo = b.payload.replyTo := by injection h.known
  have hquotedPost : a.payload.quotedPost = b.payload.quotedPost := by injection h.known
  unfold ofAction need
  rw [hkind, hcontent, htopicId, hpostId, hreplyTo, hquotedPost]

end Outbox
