import Outbox.Proofs.Settlement
import Outbox.Syncer

/-!
# Settling by hand is all or nothing

An attempt to settle a conflict by hand resolves it for the side that was chosen, or for the merged
data, or leaves it as it was in every field. There is no way between, also where a first call went
through and the second one did not (`Conflict.AllOrNothing`). Either way neither the flight nor the
syncs under way nor the published progress are touched, whatever state the syncer is in
(`Syncer.settle_atomic`).

To say what was exchanged with the remote system, the system is observed: it answers as before and
notes its calls and answers (`Remote.observed`, `Conflict.settleByHand_observed`). Nothing is
assumed of the system. It may change its state on its own account before it answers, so the calls
of a sync that is running can come between those of the attempt.
-/

namespace Outbox

variable {σ : Type}

/-! ## Observed systems -/

/-- A call and the answer to it. -/
structure Exchange where
  call : Call
  answer : Answer Unit
  deriving DecidableEq, Repr

/-- A call that was accepted. -/
def Exchange.accepted (call : Call) : Exchange := ⟨call, .value ()⟩

namespace Remote

/-- A remote system whose calls and answers are noted. -/
def observed (remote : Remote σ) : Remote (σ × List Exchange) where
  lookup s entity :=
    let (reply, after) := remote.lookup s.1 entity
    (reply, after, s.2)
  call s call :=
    let (reply, after) := remote.call s.1 call
    (reply, after, s.2 ++ [⟨call, reply.answer⟩])

variable {remote : Remote σ} {limit : Option Nat} {turn : Turn} {s : σ} {seen : List Exchange}

/-- Making calls under observation is making them, and calls that were all accepted have all been
exchanged. -/
theorem perform_observed (whole : Nat) (calls : List Call) :
    ∃ made : List Exchange,
      remote.observed.perform whole limit calls turn (s, seen) =
        { remote.perform whole limit calls turn s with
          state := ((remote.perform whole limit calls turn s).state, seen ++ made) } ∧
      ((remote.perform whole limit calls turn s).result = .accepted →
        made = calls.map .accepted) := by
  induction calls generalizing limit turn s seen with
  | nil => exact ⟨[], by simp [perform], fun _ => rfl⟩
  | cons call calls ih =>
    cases hanswered : remote.call s call with
    | mk reply after =>
      obtain ⟨answer, delay⟩ := reply
      by_cases htime : (turn.wait delay limit).inTime = true
      · cases answer with
        | value u =>
          -- The call was accepted, so what follows is what comes of the calls after it.
          obtain ⟨made, hmade, hall⟩ := @ih (limit.map (· - (turn.wait delay limit).millis))
            (turn.wait delay limit).turn after (seen ++ [.accepted call])
          refine ⟨.accepted call :: made, ?_, fun haccepted => ?_⟩
          · simp only [perform, observed, hanswered, htime, if_true] at hmade ⊢
            rw [Exchange.accepted] at hmade
            rw [hmade]
            simp [Exchange.accepted]
          · simp only [perform, hanswered, htime, if_true] at haccepted
            rw [hall haccepted, List.map_cons]
        | error e =>
          refine ⟨[⟨call, .error e⟩], by simp [perform, observed, hanswered, htime], ?_⟩
          intro haccepted
          simp [perform, hanswered, htime] at haccepted
        | breakdown =>
          refine ⟨[⟨call, .breakdown⟩], by simp [perform, observed, hanswered, htime], ?_⟩
          intro haccepted
          simp [perform, hanswered, htime] at haccepted
      · refine ⟨[⟨call, answer⟩], by simp [perform, observed, hanswered, htime], ?_⟩
        intro haccepted
        simp [perform, hanswered, htime] at haccepted

/-- Delivering under observation is delivering. An action that was delivered has an operation, and
all its calls have been exchanged and accepted. -/
theorem deliver_observed (a : Action) :
    ∃ made : List Exchange,
      remote.observed.deliver limit a turn (s, seen) =
        { remote.deliver limit a turn s with
          state := ((remote.deliver limit a turn s).state, seen ++ made) } ∧
      ((remote.deliver limit a turn s).result = .accepted →
        ∃ op, Operation.ofAction a = .ok op ∧ made = op.calls.map .accepted) := by
  unfold deliver
  cases hop : Operation.ofAction a with
  | error e => exact ⟨[], by simp, nofun⟩
  | ok op =>
    obtain ⟨made, hmade, hall⟩ := perform_observed (limit.getD 0) op.calls
    exact ⟨made, hmade, fun haccepted => ⟨op, rfl, hall haccepted⟩⟩

end Remote

/-! ## Attempts -/

namespace Conflict

variable {remote : Remote σ} {limit : Option Nat} {choice : Choice} {now : Timestamp}
  {c : Conflict} {turn : Turn} {s : σ}

/-- What an attempt to settle a conflict exchanges with the remote system. -/
def exchanges (remote : Remote σ) (limit : Option Nat) (choice : Choice) (now : Timestamp)
    (c : Conflict) (turn : Turn) (s : σ) : List Exchange :=
  (c.settleByHand remote.observed limit choice now turn (s, [])).state.2

/-- The ways in which an attempt to settle a conflict by hand ends, with the conflict after it and
what was exchanged. -/
inductive Attempted (c : Conflict) (choice : Choice) (now : Timestamp) :
    Settlement.Ending → Conflict → List Exchange → Prop where
  /-- There is nothing to deliver. -/
  | nothing : c.chosen choice now = .ok none →
      Attempted c choice now (.settled ⟨none, []⟩) (c.resolve choice.resolution) []
  /-- All calls of the chosen action were accepted. -/
  | delivered {a : Action} {patches : List Patch} {op : Operation} :
      c.chosen choice now = .ok (some (a, patches)) → Operation.ofAction a = .ok op →
      Attempted c choice now (.settled ⟨some a, patches⟩) (c.resolve choice.resolution)
        (op.calls.map .accepted)
  /-- There is no payload to deliver. -/
  | unfit {e : DeliveryError} : c.chosen choice now = .error e →
      Attempted c choice now (.failed e) c []
  /-- The chosen action has no operation, a call was refused, or the limit was exceeded. -/
  | failed {a : Action} {patches : List Patch} {e : DeliveryError} {made : List Exchange} :
      c.chosen choice now = .ok (some (a, patches)) → Attempted c choice now (.failed e) c made
  | brokeDown {a : Action} {patches : List Patch} {made : List Exchange} :
      c.chosen choice now = .ok (some (a, patches)) → Attempted c choice now .brokeDown c made

/-- **An attempt ends in one of these ways**, and under observation it is the same attempt. -/
theorem settleByHand_observed (remote : Remote σ) (limit : Option Nat) (choice : Choice)
    (now : Timestamp) (c : Conflict) (turn : Turn) (s : σ) :
    c.settleByHand remote.observed limit choice now turn (s, []) =
        { c.settleByHand remote limit choice now turn s with
          state := ((c.settleByHand remote limit choice now turn s).state,
            c.exchanges remote limit choice now turn s) } ∧
      c.Attempted choice now (c.settleByHand remote limit choice now turn s).result.1
        (c.settleByHand remote limit choice now turn s).result.2
        (c.exchanges remote limit choice now turn s) := by
  unfold exchanges settleByHand
  cases hchosen : c.chosen choice now with
  | error e => exact ⟨rfl, .unfit hchosen⟩
  | ok chosen =>
    cases chosen with
    | none => exact ⟨rfl, .nothing hchosen⟩
    | some pair =>
      obtain ⟨a, patches⟩ := pair
      obtain ⟨made, hmade, hall⟩ := @Remote.deliver_observed _ remote limit turn s [] a
      simp only [hmade, List.nil_append]
      refine ⟨trivial, ?_⟩
      cases hresult : (remote.deliver limit a turn s).result with
      | accepted =>
        obtain ⟨op, hop, rfl⟩ := hall hresult
        exact .delivered hchosen hop
      | failed e => exact .failed hchosen
      | brokeDown => exact .brokeDown hchosen

/-- The remote action, or the merged data, is chosen and not known. -/
theorem chosen_eq_none_iff : c.chosen choice now = .ok none ↔
    (choice = .remote ∧ c.remoteAction = none) ∨ (choice = .merge ∧ c.mergedData = none) := by
  cases choice with
  | «local» => simp [chosen]
  | remote => simp [chosen]
  | merge =>
    cases hdata : c.mergedData with
    | none => simp [chosen, hdata]
    | some data => cases hmerged : c.merged data now <;> simp [chosen, hdata, hmerged, Except.map]

/-- What a choice picks from a conflict to be delivered, and the patches that lead there. -/
inductive Picks (c : Conflict) (now : Timestamp) : Choice → Action → List Patch → Prop where
  | local : Picks c now .local c.localAction []
  | remote {a : Action} : c.remoteAction = some a → Picks c now .remote a []
  /-- The local action, as of now, with the payload that the patches for the merged data lead to. -/
  | merge {data : Json} {payload : Payload} : c.mergedData = some data →
      Payload.decode (Snapshot.replay c.localAction.payload.toJson (c.patchesTo data)) =
        .ok payload →
      Picks c now .merge (c.localAction.carrying payload now) (c.patchesTo data)

/-- **What is chosen is what the choice picks.** -/
theorem chosen_eq_some_iff {a : Action} {patches : List Patch} :
    c.chosen choice now = .ok (some (a, patches)) ↔ c.Picks now choice a patches := by
  constructor
  · intro h
    unfold chosen at h
    cases choice with
    | «local» =>
      cases h
      exact .local
    | remote =>
      cases hremote : c.remoteAction with
      | none =>
        rw [hremote] at h
        cases h
      | some b =>
        rw [hremote] at h
        cases h
        exact .remote hremote
    | merge =>
      cases hdata : c.mergedData with
      | none =>
        simp only [hdata] at h
        cases h
      | some data =>
        cases hread : Payload.decode (Snapshot.replay c.localAction.payload.toJson
            (c.patchesTo data)) with
        | error e =>
          simp only [hdata, merged_eq_error hread, Except.map] at h
          cases h
        | ok payload =>
          simp only [hdata, merged_eq hread, Except.map] at h
          cases h
          exact .merge hdata hread
  · intro h
    unfold chosen
    cases h with
    | «local» => rfl
    | remote hremote =>
      rw [hremote]
      rfl
    | merge hdata hread => simp only [hdata, merged_eq hread, Except.map]

/-- An attempt with something to deliver succeeds if that is delivered, and only then. -/
theorem settled_iff_of_picks {a : Action} {patches : List Patch}
    (h : c.Picks now choice a patches) :
    (∃ settlement, (c.settleByHand remote limit choice now turn s).result.1 = .settled settlement) ↔
      (remote.deliver limit a turn s).result = .accepted := by
  unfold settleByHand
  rw [chosen_eq_some_iff.mpr h]
  simp only
  cases (remote.deliver limit a turn s).result with
  | accepted => exact iff_of_true ⟨_, rfl⟩ rfl
  | failed e =>
    refine iff_of_false ?_ nofun
    rintro ⟨settlement, ⟨⟩⟩
  | brokeDown =>
    refine iff_of_false ?_ nofun
    rintro ⟨settlement, ⟨⟩⟩

/-- The conflict gets the resolution that the choice is named for. -/
theorem resolve_choice (c : Conflict) (choice : Choice) :
    (choice = .local → c.resolve choice.resolution = { c with resolution := some .local }) ∧
      (choice = .remote → c.resolve choice.resolution = { c with resolution := some .remote }) ∧
        (choice = .merge → c.resolve choice.resolution = { c with resolution := some .merge }) := by
  refine ⟨?_, ?_, ?_⟩
  · rintro rfl
    rfl
  · rintro rfl
    rfl
  · rintro rfl
    rfl

/-- What an attempt to settle a conflict by hand comes to: how it ends, the conflict after it, and
what was exchanged. -/
structure AllOrNothing (c : Conflict) (choice : Choice) (now : Timestamp)
    (ending : Settlement.Ending) (after : Conflict) (made : List Exchange) : Prop where
  /-- If the attempt does not succeed, the conflict is as before. -/
  unsettled : (∀ settlement, ending ≠ .settled settlement) → after = c
  /-- If it succeeds, the conflict is resolved for the local side, for the remote side or for the
  merged data, as was chosen, and nothing else has changed. -/
  settled : ∀ settlement, ending = .settled settlement →
    (choice = .local → after = { c with resolution := some .local }) ∧
      (choice = .remote → after = { c with resolution := some .remote }) ∧
        (choice = .merge → after = { c with resolution := some .merge })
  /-- An action is said to be delivered if the choice picks it and all calls of its operation were
  made and accepted, and not otherwise. -/
  delivered : ∀ settlement, ending = .settled settlement → ∀ a, settlement.delivered = some a ↔
    ∃ op, c.Picks now choice a settlement.patches ∧ Operation.ofAction a = .ok op ∧
      made = op.calls.map .accepted
  /-- If there is nothing to deliver, it succeeds and nothing is exchanged. -/
  nothing : choice = .remote ∧ c.remoteAction = none ∨ choice = .merge ∧ c.mergedData = none →
    ending = .settled ⟨none, []⟩ ∧ made = []

variable {ending : Settlement.Ending} {after : Conflict} {made : List Exchange}

theorem Attempted.allOrNothing (h : c.Attempted choice now ending after made) :
    c.AllOrNothing choice now ending after made := by
  -- Whatever was chosen, the attempt was about this.
  have hnone {a : Action} {patches : List Patch} (hchosen : c.chosen choice now =
      .ok (some (a, patches))) : c.chosen choice now ≠ .ok none := by
    rw [hchosen]
    exact nofun
  have unsettled {ending : Settlement.Ending} {made : List Exchange}
      (hending : ∀ settlement, ending ≠ .settled settlement)
      (hsome : c.chosen choice now ≠ .ok none) : c.AllOrNothing choice now ending c made :=
    ⟨fun _ => rfl, fun _ h => absurd h (hending _), fun _ h => absurd h (hending _),
      fun h => absurd (chosen_eq_none_iff.mpr h) hsome⟩
  cases h with
  | nothing hchosen =>
    refine ⟨fun h => absurd rfl (h _), fun _ _ => c.resolve_choice choice, ?_, fun _ => ⟨rfl, rfl⟩⟩
    rintro settlement ⟨⟩ a
    refine iff_of_false nofun ?_
    rintro ⟨op, hpicks, -⟩
    exact hnone (chosen_eq_some_iff.mpr hpicks) hchosen
  | @delivered a patches op hchosen hop =>
    refine ⟨fun h => absurd rfl (h _), fun _ _ => c.resolve_choice choice, ?_, fun h => ?_⟩
    · rintro settlement ⟨⟩ b
      constructor
      · rintro ⟨⟩
        exact ⟨op, chosen_eq_some_iff.mp hchosen, hop, rfl⟩
      · rintro ⟨op', hpicks, -⟩
        have hsome := chosen_eq_some_iff.mpr hpicks
        rw [hchosen] at hsome
        cases hsome
        rfl
    · exact absurd (chosen_eq_none_iff.mpr h) (hnone hchosen)
  | unfit hchosen =>
    refine unsettled (fun _ h => by cases h) fun h => ?_
    rw [h] at hchosen
    cases hchosen
  | failed hchosen => exact unsettled (fun _ h => by cases h) (hnone hchosen)
  | brokeDown hchosen => exact unsettled (fun _ h => by cases h) (hnone hchosen)

end Conflict

/-! ## The syncer -/

/-- **Settling a conflict by hand is all or nothing**, in every state of the syncer and whatever the
remote system answers: the conflict is resolved as was chosen or stays as it was, and the flight,
the syncs under way and the published progress stay as they were. If there is something to deliver,
the attempt succeeds just when that is delivered. What was exchanged is what an observer of the same
attempt notes. -/
theorem Syncer.settle_atomic (remote : Remote σ) (limits : Limits) (choice : Choice)
    (now : Timestamp) (c : Conflict) (turn : Turn) (s : Syncer σ) :
    let attempt := s.settle remote limits choice now c turn
    let made := c.exchanges remote limits.delivery choice now turn s.shared.remote
    c.AllOrNothing choice now attempt.result.1 attempt.result.2 made ∧
      (∀ a patches, c.Picks now choice a patches →
        ((∃ settlement, attempt.result.1 = .settled settlement) ↔
          (remote.deliver limits.delivery a turn s.shared.remote).result = .accepted)) ∧
      attempt.state.flight = s.flight ∧ attempt.state.live = s.live ∧
      attempt.state.shared.progress = s.shared.progress ∧
      c.settleByHand remote.observed limits.delivery choice now turn (s.shared.remote, []) =
        { attempt with state := (attempt.state.shared.remote, made) } := by
  obtain ⟨hobserved, hattempted⟩ :=
    c.settleByHand_observed remote limits.delivery choice now turn s.shared.remote
  refine ⟨hattempted.allOrNothing, ?_, rfl, rfl, rfl, hobserved⟩
  exact fun _ _ => Conflict.settled_iff_of_picks

/-- A join of a topic that conflicts with a like, and for which the join of another topic could be
made. -/
def Conflict.sampleJoin : Conflict where
  localAction := .queued "ann" .joinTopic (.ofTopic "t") ⟨"a1"⟩ .epoch
  remoteAction := some (.queued "bob" .likePost (.ofPost "p1") ⟨"b1"⟩ .epoch)
  kind := .merge
  resolution := none
  mergedData := some (.obj [("topicId", .str "u")])

/-- Topics can be joined, but one cannot be subscribed to. -/
def ScriptedRemote.sampleUnsubscribed : ScriptedRemote :=
  { ScriptedRemote.empty with refusedSubscriptions := ["t"] }

/-- Where the join went through and the subscription did not, the conflict stays as it was. The like
and the other join are delivered, and the conflict is resolved for the one or the other. A sync is
running all the same. -/
theorem Syncer.settle_atomic_sample :
    let s : Syncer ScriptedRemote := ⟨.running 3, ⟨.ofBatch 3, .sampleUnsubscribed⟩, []⟩
    let now : Timestamp := ⟨7, by decide⟩
    let attempt (choice : Choice) :=
      s.settle ScriptedRemote.remote ⟨none, none⟩ choice now Conflict.sampleJoin .full
    let exchanges (choice : Choice) :=
      Conflict.sampleJoin.exchanges ScriptedRemote.remote none choice now .full .sampleUnsubscribed
    ((attempt .local).result = (.failed (.remote (.rejected "subscription to t refused")),
          Conflict.sampleJoin) ∧
        exchanges .local = [.accepted (.joinTopic "t"),
          ⟨.subscribe "t", .error (.rejected "subscription to t refused")⟩]) ∧
      ((attempt .remote).result =
          (.settled ⟨some (.queued "bob" .likePost (.ofPost "p1") ⟨"b1"⟩ .epoch), []⟩,
            { Conflict.sampleJoin with resolution := some .remote }) ∧
        exchanges .remote = [.accepted (.likePost "p1")]) ∧
      ((attempt .merge).result =
          (.settled ⟨some (.queued "ann" .joinTopic (.ofTopic "u") ⟨"a1"⟩ now),
              [.modify "topicId" (.str "u") (some (.str "t"))]⟩,
            { Conflict.sampleJoin with resolution := some .merge }) ∧
        exchanges .merge = [.accepted (.joinTopic "u"), .accepted (.subscribe "u")]) ∧
      ∀ choice, (attempt choice).state.flight = .running 3 := by
  intro s now attempt exchanges
  have hatomic (choice : Choice) := settle_atomic ScriptedRemote.remote ⟨none, none⟩ choice now
    Conflict.sampleJoin .full s
  have hlocal : (attempt .local).result.1 =
      .failed (.remote (.rejected "subscription to t refused")) := by decide +kernel
  have hremote : (attempt .remote).result.1 =
      .settled ⟨some (.queued "bob" .likePost (.ofPost "p1") ⟨"b1"⟩ .epoch), []⟩ := by
    decide +kernel
  have hmerge : (attempt .merge).result.1 =
      .settled ⟨some (.queued "ann" .joinTopic (.ofTopic "u") ⟨"a1"⟩ now),
        [.modify "topicId" (.str "u") (some (.str "t"))]⟩ := by
    decide +kernel
  have hunsettled : (attempt .local).result.2 = Conflict.sampleJoin :=
    (hatomic .local).1.unsettled fun settlement h => by
      rw [hlocal] at h
      cases h
  refine ⟨⟨Prod.ext hlocal hunsettled, by decide +kernel⟩,
    ⟨Prod.ext hremote (((hatomic .remote).1.settled _ hremote).2.1 rfl), by decide +kernel⟩,
    ⟨Prod.ext hmerge (((hatomic .merge).1.settled _ hmerge).2.2 rfl), by decide +kernel⟩,
    fun choice => (hatomic choice).2.2.1⟩

end Outbox
