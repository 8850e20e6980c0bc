import Outbox.Proofs.Action.Payload
import Outbox.Proofs.Timestamp.RoundTrip
import Outbox.Report

/-!
# Queues and reports, written and read

Actions, conflicts and reports are read as they were written, exactly if the times of all actions in
them can be read back; only the null of merged data is lost. What is read is well formed, from
objects and from arrays, so it can be written and read again.

* `Action.roundTrips`, `Conflict.roundTrips`, `Report.roundTrips`: one law for each, the later ones
  built from the earlier.
-/

namespace Outbox

/-! ## Actions -/

theorem Timestamp.gives_decode (t : Timestamp) :
    Gives (Decode.timestamp (Action.timestampJson t)) t.ReadsBack t := by
  intro t'
  unfold Decode.timestamp Action.timestampJson
  simp only
  rw [parse_text]
  split
  · rename_i hreads
    rw [and_iff_right hreads]
    exact ⟨fun h => (Except.ok.inj h).symm, fun h => congrArg Except.ok h.symm⟩
  · rename_i hreads
    exact iff_of_false nofun fun h => hreads h.1

namespace Action

variable {a : Action}

/-- The payload of an action is well formed. -/
def WellFormed (a : Action) : Prop := a.payload.WellFormed

/-- The time of an action can be read back. -/
def ReadsBack (a : Action) : Prop := a.createdAt.ReadsBack

instance (a : Action) : Decidable a.ReadsBack := by unfold ReadsBack; infer_instance

theorem toJson_ne_null (a : Action) : a.toJson ≠ .null := by
  unfold toJson
  exact nofun

theorem record_lawful : record.Lawful :=
  ((((((Record.lawful_optional _ _).map.seq (Record.lawful_required _ _)).seq
    (Record.lawful_required _ _)).seq (Record.lawful_required _ _)).seq
    (Record.lawful_withDefault _ _ _)).seq (Record.lawful_required _ _)).seq
    (Record.lawful_withDefault _ _ _)

theorem gives_decode (h : a.WellFormed) : Gives (decode a.toJson) a.ReadsBack a := by
  have hkeys : (Fields.keys a.toJson.fields).Nodup := by
    cases hid : a.id <;> simp [toJson, Json.fields, Fields.keys, hid]
  have hget : ∀ name j, (name, j) ∈ a.toJson.fields → Fields.get? name a.toJson.fields = some j :=
    fun name j hmem => Fields.get?_of_mem hkeys hmem
  have hid : (Record.optional "id" Decode.signed).ofFields a.toJson.fields = .ok a.id := by
    refine Record.ofFields_optional (fun id => .int id.toInt) ?_ (fun _ => Json.noConfusion)
      Decode.signed_int
    cases hid : a.id <;> simp [toJson, Json.fields, Fields.get?, hid]
  have hlocalId : (Record.required "localId" LocalId.decode).ofFields a.toJson.fields =
      .ok a.localId :=
    Record.ofFields_required (hget _ a.localId.toJson (by simp [toJson, Json.fields]))
  have huserPubkey : (Record.required "userPubkey" Decode.string).ofFields a.toJson.fields =
      .ok a.userPubkey :=
    Record.ofFields_required (hget _ (.str a.userPubkey) (by simp [toJson, Json.fields]))
  have hkind : (Record.required "actionType" ActionKind.decode).ofFields a.toJson.fields =
      .ok a.kind := by
    rw [Record.ofFields_required (hget _ a.kind.toJson (by simp [toJson, Json.fields]))]
    exact Decode.variant_str a.kind.ofName?_name
  have hpayload : (Record.withDefault "actionData" .empty Payload.decode).ofFields
      a.toJson.fields = .ok a.payload := by
    rw [Record.ofFields_withDefault (hget _ a.payload.toJson (by simp [toJson, Json.fields]))]
    exact Payload.decode_toJson h
  have hcreatedAt : Gives ((Record.required "createdAt" Decode.timestamp).ofFields
      a.toJson.fields) a.ReadsBack a.createdAt := by
    rw [Record.ofFields_required
      (hget _ (timestampJson a.createdAt) (by simp [toJson, Json.fields]))]
    exact a.createdAt.gives_decode
  have hisSynced : (Record.withDefault "isSynced" false Decode.boolean).ofFields
      a.toJson.fields = .ok a.isSynced :=
    Record.ofFields_withDefault (hget _ (.bool a.isSynced) (by simp [toJson, Json.fields])) false
  have hfront := Record.ofFields_seq_ok (Record.ofFields_seq_ok (Record.ofFields_seq_ok
    (Record.ofFields_seq_ok (Record.ofFields_map_ok (f := Action.mk) hid) hlocalId) huserPubkey)
    hkind) hpayload
  refine Record.gives_decode record_lawful hkeys ?_
  refine (Record.gives_seq (Record.gives_seq (.of_eq hfront) hcreatedAt)
    (.of_eq hisSynced)).congr ?_
  rw [and_true, true_and]

/-- **An action is read as it was written** if its time can be read back, and only then. -/
theorem roundTrips : RoundTrips decode toJson WellFormed ReadsBack fun a => a where
  written _ ha := gives_decode ha
  read j a ha := by
    have hrecord : record.Always WellFormed := by
      refine Record.Always.seq_any (Record.Always.seq_any (Record.Always.seq
        (P := Payload.WellFormed) (Record.Always.withDefault ?_ fun j p => ?_) ?_))
      · exact ⟨⟨List.nodup_nil, trivial⟩, fun name hname => absurd hname List.not_mem_nil⟩
      · exact Payload.wellFormed_of_decode
      · refine Record.Always.seq_any (Record.Always.seq_any (Record.Always.seq_any
          (Record.Always.map_any fun id localId userPubkey kind payload hpayload _ _ => hpayload)))
    exact hrecord.of_decode ha

end Action

/-! ## Conflicts -/

namespace Conflict

variable {c : Conflict}

/-- The actions of a conflict are well formed and so is the merged payload. -/
structure WellFormed (c : Conflict) : Prop where
  localAction : c.localAction.WellFormed
  remoteAction : ∀ a ∈ c.remoteAction, a.WellFormed
  mergedData : ∀ j ∈ c.mergedData, j.WellFormed

/-- The times of both actions can be read back. -/
def ReadsBack (c : Conflict) : Prop :=
  c.localAction.ReadsBack ∧ ∀ a ∈ c.remoteAction, a.ReadsBack

instance (c : Conflict) : Decidable c.ReadsBack := by unfold ReadsBack; infer_instance

/-- A conflict as it is read: merged data that is null counts as none. -/
def withoutNull (c : Conflict) : Conflict :=
  { c with mergedData := c.mergedData.filter (· ≠ .null) }

theorem record_lawful : record.Lawful :=
  ((((Record.lawful_required _ _).map.seq (Record.lawful_optional _ _)).seq
    (Record.lawful_required _ _)).seq (Record.lawful_optional _ _)).seq
    (Record.lawful_optional _ _)

theorem gives_decode (h : c.WellFormed) : Gives (decode c.toJson) c.ReadsBack c.withoutNull := by
  have hkeys : (Fields.keys c.toJson.fields).Nodup := by
    cases hremote : c.remoteAction <;> cases hresolution : c.resolution <;>
      cases hmerged : c.mergedData <;>
      simp [toJson, Json.fields, Fields.keys, hremote, hresolution, hmerged]
  have hget : ∀ name j, (name, j) ∈ c.toJson.fields → Fields.get? name c.toJson.fields = some j :=
    fun name j hmem => Fields.get?_of_mem hkeys hmem
  have hlocal : Gives ((Record.required "localAction" Action.decode).ofFields c.toJson.fields)
      c.localAction.ReadsBack c.localAction := by
    rw [Record.ofFields_required (hget _ c.localAction.toJson (by simp [toJson, Json.fields]))]
    exact Action.gives_decode h.localAction
  have hremote : Gives ((Record.optional "remoteAction" Action.decode).ofFields c.toJson.fields)
      (∀ a ∈ c.remoteAction, a.ReadsBack) c.remoteAction := by
    have hread : Fields.get? "remoteAction" c.toJson.fields = c.remoteAction.map Action.toJson := by
      simp [toJson, Json.fields, Fields.get?]
    have hgives := Record.gives_optional id hread Action.toJson_ne_null fun a ha =>
      Action.gives_decode (h.remoteAction a ha)
    rwa [Option.map_id] at hgives
  have hkind : (Record.required "conflictType" ConflictKind.decode).ofFields c.toJson.fields =
      .ok c.kind := by
    rw [Record.ofFields_required (hget _ c.kind.toJson (by simp [toJson, Json.fields]))]
    exact Decode.variant_str c.kind.ofName?_name
  have hresolution : (Record.optional "resolution" Resolution.decode).ofFields c.toJson.fields =
      .ok c.resolution := by
    refine Record.ofFields_optional Resolution.toJson ?_ (fun _ => Json.noConfusion) fun r =>
      Decode.variant_str r.ofName?_name
    simp [toJson, Json.fields, Fields.get?]
  have hmerged : (Record.optional "mergedData" Decode.value).ofFields c.toJson.fields =
      .ok (c.mergedData.filter (· ≠ .null)) :=
    Record.ofFields_optional_value (by simp [toJson, Json.fields, Fields.get?]) h.mergedData
  refine Record.gives_decode record_lawful hkeys ?_
  refine (Record.gives_seq (Record.gives_seq (Record.gives_seq (Record.gives_seq
    (Record.gives_map Conflict.mk hlocal) hremote) (.of_eq hkind)) (.of_eq hresolution))
    (.of_eq hmerged)).congr ?_
  simp only [and_true]
  rfl

/-- **A conflict is read as it was written**, but for merged data that is null, if the times of its
actions can be read back, and only then. -/
theorem roundTrips : RoundTrips decode toJson WellFormed ReadsBack withoutNull where
  written _ hc := gives_decode hc
  read j c hc := by
    have hmerged : ∀ j x, Decode.value j = .ok x → x.WellFormed := by
      intro j x hx
      cases hx
      exact Json.wellFormed_normal j
    have hrecord : record.Always WellFormed := by
      refine Record.Always.seq (Record.Always.optional hmerged) ?_
      refine Record.Always.seq_any (Record.Always.seq_any ?_)
      refine Record.Always.seq (Record.Always.optional Action.roundTrips.read) ?_
      refine Record.Always.map (Record.Always.required Action.roundTrips.read) ?_
      exact fun a ha b hb kind resolution data hdata => ⟨ha, hb, hdata⟩
    exact hrecord.of_decode hc

end Conflict

/-! ## Reports -/

namespace Report

variable {r : Report}

/-- Everything in a report is well formed. -/
structure WellFormed (r : Report) : Prop where
  synced : ∀ a ∈ r.synced, a.WellFormed
  conflicts : ∀ c ∈ r.conflicts, c.WellFormed
  failed : ∀ a ∈ r.failed, a.WellFormed

/-- The times of all actions in a report can be read back. -/
structure ReadsBack (r : Report) : Prop where
  synced : ∀ a ∈ r.synced, a.ReadsBack
  conflicts : ∀ c ∈ r.conflicts, c.ReadsBack
  failed : ∀ a ∈ r.failed, a.ReadsBack

/-- A report as it is read. -/
def withoutNull (r : Report) : Report := { r with conflicts := r.conflicts.map .withoutNull }

theorem record_lawful : record.Lawful :=
  (((Record.lawful_required _ _).map.seq (Record.lawful_required _ _)).seq
    (Record.lawful_required _ _)).seq (Record.lawful_required _ _)

theorem gives_decode (h : r.WellFormed) : Gives (decode r.toJson) r.ReadsBack r.withoutNull := by
  have hactions := Action.roundTrips.list
  have hkeys : (Fields.keys r.toJson.fields).Nodup := by simp [toJson, Json.fields, Fields.keys]
  have hsynced : Gives ((Record.required "syncedActions" (Decode.list Action.decode)).ofFields
      r.toJson.fields) (∀ a ∈ r.synced, a.ReadsBack) r.synced := by
    have hgives := hactions.written r.synced h.synced
    rw [List.map_id'] at hgives
    exact hgives
  have hconflicts : Gives ((Record.required "conflicts" (Decode.list Conflict.decode)).ofFields
      r.toJson.fields) (∀ c ∈ r.conflicts, c.ReadsBack) (r.conflicts.map .withoutNull) :=
    Conflict.roundTrips.list.written r.conflicts h.conflicts
  have hfailed : Gives ((Record.required "failedActions" (Decode.list Action.decode)).ofFields
      r.toJson.fields) (∀ a ∈ r.failed, a.ReadsBack) r.failed := by
    have hgives := hactions.written r.failed h.failed
    rw [List.map_id'] at hgives
    exact hgives
  have hprocessed : (Record.required "totalProcessed" Decode.unsigned).ofFields r.toJson.fields =
      .ok r.processed :=
    Decode.unsigned_nat r.processed
  refine Record.gives_decode record_lawful hkeys ?_
  refine (Record.gives_seq (Record.gives_seq (Record.gives_seq
    (Record.gives_map Report.mk hsynced) hconflicts) hfailed) (.of_eq hprocessed)).congr ?_
  rw [and_true]
  exact ⟨fun h => ⟨h.1.1, h.1.2, h.2⟩, fun h => ⟨⟨h.synced, h.conflicts⟩, h.failed⟩⟩

/-- **A report is read as it was written**, but for merged data that is null, if the times of all
its actions can be read back, and only then. -/
theorem roundTrips : RoundTrips decode toJson WellFormed ReadsBack withoutNull where
  written _ hr := gives_decode hr
  read j r hr := by
    have hactions := Action.roundTrips.list.read
    have hrecord : record.Always WellFormed := by
      refine Record.Always.seq_any (Record.Always.seq (Record.Always.required hactions) ?_)
      refine Record.Always.seq (Record.Always.required Conflict.roundTrips.list.read) ?_
      refine Record.Always.map (Record.Always.required hactions) ?_
      exact fun synced hsynced conflicts hconflicts failed hfailed processed =>
        ⟨hsynced, hconflicts, hfailed⟩
    exact hrecord.of_decode hr

end Report
end Outbox
