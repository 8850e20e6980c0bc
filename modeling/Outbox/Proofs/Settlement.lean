import Outbox.Proofs.Action.Same
import Outbox.Proofs.Snapshot.Effect
import Outbox.Remote.Scripted
import Outbox.Settlement

/-!
# Settling by hand with the merged data

The merged data reaches the action by way of patches, and a patch for a key with a point goes below
another key. So the action that is delivered carries the merged payload, and the patches lead to the
merged data, if no key on which the local payload and the merged data differ has a point. If one
has, neither is so: what is delivered lacks this difference (`Conflict.settleByHand_merge`).

* `Snapshot.wellFormed_replay_changes`: replaying the changes keeps a snapshot well formed.
* `Conflict.of_settled_merge`: a settlement delivers what is read from the replayed snapshot.
-/

namespace Outbox

variable {key : String}

namespace Snapshot

variable {old new : Fields Json}

/-- Replaying the changes between two well-formed objects leads to a well-formed one. -/
theorem wellFormed_replay_changes (hold : (Json.obj old).WellFormed)
    (hnew : (Json.obj new).WellFormed) :
    (replay (.obj old) (changes (.obj old) (.obj new))).WellFormed := by
  obtain ⟨hkeys, hvalues⟩ := Json.wellFormed_obj_iff.mp hnew
  refine wellFormed_replay (fun p hp x hx => ?_) hold
  rw [(of_mem_changes hkeys hp).1] at hx
  exact hvalues _ (Fields.mem_of_get? hx)

end Snapshot

/-! ## The merged payload -/

/-- An action with another payload, as of now. -/
def Action.carrying (a : Action) (payload : Payload) (now : Timestamp) : Action :=
  { a with payload, createdAt := now }

theorem Payload.not_mem_knownNames (h : '.' ∈ key.toList) : key ∉ knownNames := by
  have hplain : ∀ name ∈ knownNames, '.' ∉ name.toList := by decide
  exact fun hkey => hplain key hkey h

theorem Remote.deliver_congr {σ : Type} (remote : Remote σ) (limit : Option Nat) {a b : Action}
    (h : Operation.ofAction a = Operation.ofAction b) (turn : Turn) (s : σ) :
    remote.deliver limit a turn s = remote.deliver limit b turn s := by
  unfold deliver
  rw [h]

namespace Conflict

variable {σ : Type} {remote : Remote σ} {limit : Option Nat} {now : Timestamp} {c : Conflict}
  {data : Json} {turn : Turn} {s : σ} {q : Payload}

/-- The patches that lead from the local payload to the merged data. -/
def patchesTo (c : Conflict) (data : Json) : List Patch :=
  Snapshot.changes c.localAction.payload.toJson data

theorem merged_eq (h : Payload.decode (Snapshot.replay c.localAction.payload.toJson
      (c.patchesTo data)) = .ok q) :
    c.merged data now = .ok (c.localAction.carrying q now, c.patchesTo data) := by
  unfold merged Payload.ofJson
  unfold patchesTo at h ⊢
  simp only
  rw [h]
  rfl

theorem merged_eq_error {e : DecodeError} (h : Payload.decode (Snapshot.replay
      c.localAction.payload.toJson (c.patchesTo data)) = .error e) :
    c.merged data now = .error (.invalidPayload (.malformed e)) := by
  unfold merged Payload.ofJson
  unfold patchesTo at h
  simp only
  rw [h]
  rfl

/-- **Only what is read from the replayed snapshot is delivered.** -/
theorem of_settled_merge (hdata : c.mergedData = some data) {settlement : Settlement}
    {c' : Conflict}
    (h : (c.settleByHand remote limit .merge now turn s).result = (.settled settlement, c')) :
    ∃ q, Payload.decode (Snapshot.replay c.localAction.payload.toJson (c.patchesTo data)) = .ok q ∧
      settlement = ⟨some (c.localAction.carrying q now), c.patchesTo data⟩ := by
  cases hread : Payload.decode (Snapshot.replay c.localAction.payload.toJson
      (c.patchesTo data)) with
  | error e =>
    unfold settleByHand chosen at h
    simp only [hdata, merged_eq_error hread, Except.map] at h
    cases h
  | ok q =>
    refine ⟨q, rfl, ?_⟩
    unfold settleByHand chosen at h
    simp only [hdata, merged_eq hread, Except.map] at h
    split at h <;> cases h
    rfl

/-- What is read from the replayed snapshot is delivered. -/
theorem settleByHand_of_accepted (hdata : c.mergedData = some data)
    (hread : Payload.decode (Snapshot.replay c.localAction.payload.toJson
      (c.patchesTo data)) = .ok q)
    (h : (remote.deliver limit (c.localAction.carrying q now) turn s).result = .accepted) :
    c.settleByHand remote limit .merge now turn s =
      { remote.deliver limit (c.localAction.carrying q now) turn s with
        result := (.settled ⟨some (c.localAction.carrying q now), c.patchesTo data⟩,
          c.resolve .merge) } := by
  unfold settleByHand chosen
  simp only [hdata, merged_eq hread, Except.map, h]
  rfl

variable {p : Payload} {fs : Fields Json}

/-- The snapshot that the patches lead to agrees with the merged data if no difference is under a
key with a point, and what is under such keys stays as it was. -/
theorem exists_replayed (hlocal : (Json.obj c.localAction.payload.extra).WellFormed)
    (hfs : (Json.obj fs).WellFormed) :
    ∃ after, Snapshot.replay c.localAction.payload.toJson (c.patchesTo (.obj fs)) = .obj after ∧
      (Json.obj after).WellFormed ∧
      ((∀ key, Json.sameAt (Fields.get? key after) (Fields.get? key fs) = true) ↔
        ∀ key, Snapshot.Differ c.localAction.payload.toJson.fields fs key → '.' ∉ key.toList) ∧
      ∀ key, '.' ∈ key.toList →
        Fields.get? key after = Fields.get? key c.localAction.payload.toJson.fields := by
  obtain ⟨before, hbefore⟩ : ∃ before, c.localAction.payload.toJson = .obj before := ⟨_, rfl⟩
  have hwell := Payload.wellFormed_toJson hlocal
  unfold patchesTo
  rw [hbefore] at hwell ⊢
  refine ⟨_, Snapshot.replay_obj before _, ?_, Snapshot.forall_sameAt_iff before hfs,
    fun key hpoint => Snapshot.get?_foldl_replayOne_of_mem _ hpoint⟩
  exact Snapshot.wellFormed_replay_changes hwell hfs

/-- **Settling with the merged data delivers the merged payload**, and the patches lead from the
local payload to the merged data, if no key on which they differ has a point. If some key has one,
no settlement does either: neither is the snapshot that the patches lead to the merged data, nor is
any payload that is delivered the merged one. -/
theorem settleByHand_merge (hlocal : (Json.obj c.localAction.payload.extra).WellFormed)
    (hdata : c.mergedData = some (.obj fs)) (hfs : (Json.obj fs).WellFormed)
    (hp : Payload.decode (.obj fs) = .ok p)
    (haccepted : (remote.deliver limit (c.localAction.carrying p now) turn s).result = .accepted) :
    ((∀ key, Snapshot.Differ c.localAction.payload.toJson.fields fs key → '.' ∉ key.toList) →
        ∃ q : Payload, q.Same p ∧
          c.settleByHand remote limit .merge now turn s =
            { remote.deliver limit (c.localAction.carrying p now) turn s with
              result := (.settled ⟨some (c.localAction.carrying q now), c.patchesTo (.obj fs)⟩,
                c.resolve .merge) } ∧
          (Snapshot.replay c.localAction.payload.toJson (c.patchesTo (.obj fs))).same
            (.obj fs) = true) ∧
      ∀ key, Snapshot.Differ c.localAction.payload.toJson.fields fs key → '.' ∈ key.toList →
        (Snapshot.replay c.localAction.payload.toJson (c.patchesTo (.obj fs))).same
            (.obj fs) = false ∧
          ∀ settlement c',
            (c.settleByHand remote limit .merge now turn s).result = (.settled settlement, c') →
              settlement.patches = c.patchesTo (.obj fs) ∧
                ∀ a ∈ settlement.delivered, ¬ a.payload.Same p := by
  obtain ⟨after, hreplayed, hafter, hagree, hkept⟩ := exists_replayed hlocal hfs
  have hsame := Json.same_obj_iff (Json.wellFormed_obj_iff.mp hafter).1
    (Json.wellFormed_obj_iff.mp hfs).1
  rw [hreplayed]
  constructor
  · intro hplain
    obtain ⟨q, hq, hqp⟩ := Payload.exists_decode_same hafter hfs (hagree.mpr hplain) hp
    rw [← hreplayed] at hq
    have hoperation : Operation.ofAction (c.localAction.carrying q now) =
        Operation.ofAction (c.localAction.carrying p now) := Operation.ofAction_congr rfl hqp
    have hdeliver := remote.deliver_congr limit hoperation turn s
    refine ⟨q, hqp, ?_, hsame.mpr (hagree.mpr hplain)⟩
    rw [← hdeliver] at haccepted ⊢
    exact settleByHand_of_accepted hdata hq haccepted
  · intro key hdiffer hpoint
    have hunlike : ¬ (Json.obj after).same (.obj fs) = true := fun hall =>
      hagree.mp (hsame.mp hall) key hdiffer hpoint
    refine ⟨Bool.not_eq_true _ ▸ hunlike, fun settlement c' hsettled => ?_⟩
    obtain ⟨q, hq, rfl⟩ := of_settled_merge hdata hsettled
    refine ⟨rfl, fun a ha hqp => ?_⟩
    rw [hreplayed] at hq
    rw [← Option.some.inj ha] at hqp
    -- The difference is under a further name, and no patch has reached it.
    have hagreed := hqp.sameAt hafter hfs hq hp (Payload.not_mem_knownNames hpoint)
    rw [hkept key hpoint, hdiffer] at hagreed
    cases hagreed

/-- A post with a further field, and merged data for it. -/
def sampleMerge (merged : Fields Json) : Conflict :=
  (fresh (.queued "ann" .createPost
    { Payload.newPost "mine" "t1" with extra := [("draft", .bool true)] } ⟨"a1"⟩ .epoch)
    .merge).mergingTo (.obj merged)

/-- Merged data with another text, and with a field under a key of choice. -/
def sampleData (key : String) : Fields Json :=
  [("topicId", .str "t1"), ("content", .str "ours"), (key, .bool false)]

/-- The payload that the merged data stands for. -/
def sampleMerged (key : String) : Payload :=
  { Payload.newPost "ours" "t1" with extra := [(key, .bool false)] }

/-- How settling with the merged data ends if a payload is delivered. -/
def sampleEnding (key : String) (q : Payload) : Settlement.Ending × Conflict :=
  (.settled ⟨some ((sampleMerge (sampleData key)).localAction.carrying q .epoch),
    (sampleMerge (sampleData key)).patchesTo (.obj (sampleData key))⟩,
    (sampleMerge (sampleData key)).resolve .merge)

/-- A field under a plain key arrives, and one under a key with a point gets lost. -/
theorem settleByHand_merge_sample :
    Payload.decode (.obj (sampleData "tag")) = .ok (sampleMerged "tag") ∧
      (∃ q : Payload, q.Same (sampleMerged "tag") ∧
        ((sampleMerge (sampleData "tag")).settleByHand ScriptedRemote.remote none .merge .epoch
          .full .empty).result = sampleEnding "tag" q) ∧
      Payload.decode (.obj (sampleData "content.tag")) = .ok (sampleMerged "content.tag") ∧
      ((sampleMerge (sampleData "content.tag")).settleByHand ScriptedRemote.remote none .merge
        .epoch .full .empty).result = sampleEnding "content.tag" (Payload.newPost "ours" "t1") ∧
      ¬ (Payload.newPost "ours" "t1").Same (sampleMerged "content.tag") := by
  have hlocal : ∀ fs, (Json.obj (sampleMerge fs).localAction.payload.extra).WellFormed := by
    intro fs
    simp [sampleMerge, fresh, mergingTo, Action.queued, Json.WellFormed, Json.WellFormedFields,
      Fields.keys]
  have hplain : ∀ key, Snapshot.Differ
      (sampleMerge (sampleData "tag")).localAction.payload.toJson.fields (sampleData "tag") key →
        '.' ∉ key.toList := by
    have hpaths : ∀ p ∈ (sampleMerge (sampleData "tag")).patchesTo (.obj (sampleData "tag")),
        '.' ∉ p.path.toList := by decide +kernel
    intro key hdiffer
    obtain ⟨p, hp, rfl⟩ := Snapshot.exists_mem_changes hdiffer
    exact hpaths p hp
  have hfs : (Json.obj (sampleData "tag")).WellFormed := by
    simp [sampleData, Json.WellFormed, Json.WellFormedFields, Fields.keys]
  have hgs : (Json.obj (sampleData "content.tag")).WellFormed := by
    simp [sampleData, Json.WellFormed, Json.WellFormedFields, Fields.keys]
  have hp : Payload.decode (.obj (sampleData "tag")) = .ok (sampleMerged "tag") := rfl
  have hq : Payload.decode (.obj (sampleData "content.tag")) = .ok (sampleMerged "content.tag") :=
    rfl
  have hsettled := @settleByHand_merge _ ScriptedRemote.remote none .epoch
    (sampleMerge (sampleData "tag")) .full .empty _ _ (hlocal _) rfl hfs hp rfl
  have hlost := @settleByHand_merge _ ScriptedRemote.remote none .epoch
    (sampleMerge (sampleData "content.tag")) .full .empty _ _ (hlocal _) rfl hgs hq rfl
  obtain ⟨q, hsame, hending, -⟩ := hsettled.1 hplain
  have hending' : ((sampleMerge (sampleData "content.tag")).settleByHand ScriptedRemote.remote none
      .merge .epoch .full .empty).result =
        sampleEnding "content.tag" (Payload.newPost "ours" "t1") := by decide +kernel
  have hdiffer : Snapshot.Differ
      (sampleMerge (sampleData "content.tag")).localAction.payload.toJson.fields
      (sampleData "content.tag") "content.tag" := rfl
  have hnone := (hlost.2 "content.tag" hdiffer (by decide)).2 _ _ hending'
  exact ⟨hp, ⟨q, hsame, congrArg Timed.result hending⟩, hq, hending', hnone.2 _ rfl⟩

end Conflict
end Outbox
