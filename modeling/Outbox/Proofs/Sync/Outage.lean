import Outbox.Proofs.Sync.Prompt
import Outbox.Proofs.Sync.Script

/-!
# Syncs in an outage

What the remote system knows about entities serves to find conflicts, and nothing else. A script
that loses more look-ups than another one or knows fewer times, and refuses the same calls
(`ScriptedRemote.Outage`), has some of its conflicts and no others. So an action that was not
discarded fares as it did, and one that was discarded may be carried out or fail
(`Report.FailsOpen`).

* `ScriptedRemote.Outage.conflictOf?`: a conflict in the outage is one without it.
* `ScriptedRemote.Outage.alike`: what is not discarded fares as it did.
* `Syncer.sync_fails_open`: two syncs of a batch, whatever their schedules.
-/

namespace Outbox

/-! ## Scripts and reports in an outage -/

/-- `less` refuses the same calls and knows no more about entities: it may lose more look-ups and
lack some times. -/
structure ScriptedRemote.Outage (script less : ScriptedRemote) : Prop where
  lostLookups : script.lostLookups ⊆ less.lostLookups
  /-- The latest entry of an entity is the one that counts. -/
  modifiedAt : ∀ entity t, less.modifiedAt.lookup entity = some t →
    script.modifiedAt.lookup entity = some t
  refusedTopics : ∀ topicId, topicId ∈ script.refusedTopics ↔ topicId ∈ less.refusedTopics
  refusedSubscriptions : ∀ topicId,
    topicId ∈ script.refusedSubscriptions ↔ topicId ∈ less.refusedSubscriptions
  refusedPosts : ∀ postId, postId ∈ script.refusedPosts ↔ postId ∈ less.refusedPosts

/-- What becomes of the report of a batch in an outage. -/
structure Report.FailsOpen (r less : Report) : Prop where
  conflicts : less.conflicts.Sublist r.conflicts
  discarded : less.discarded.Sublist r.discarded
  synced : r.synced.Sublist less.synced
  failed : r.failed.Sublist less.failed
  processed : less.processed = r.processed
  /-- Only what was discarded is carried out or fails in the outage and not without it. -/
  regained : ∀ a, a ∈ less.synced ∧ a ∉ r.synced ∨ a ∈ less.failed ∧ a ∉ r.failed →
    a ∈ r.discarded
  /-- What was carried out neither fails nor is discarded. -/
  spared : ∀ a ∈ r.synced, a ∉ less.failed ∧ a ∉ less.discarded

namespace ScriptedRemote.Outage

variable {script less : ScriptedRemote} {a : Action}

/-! ## Look-ups and conflicts -/

/-- A time that is found in the outage is found without it. -/
theorem time? (h : script.Outage less) {entity : Entity} {t : Timestamp}
    (ht : (less.lookupAnswer entity).time? = some t) :
    (script.lookupAnswer entity).time? = some t := by
  unfold lookupAnswer at ht ⊢
  split at ht
  · cases ht
  · rename_i hkept
    have hknown : ¬ script.lostLookups.contains entity.id = true := by
      rw [List.contains_iff_mem] at hkept ⊢
      exact fun hlost => hkept (h.lostLookups hlost)
    rw [if_neg hknown]
    exact h.modifiedAt entity t ht

/-- **A conflict in the outage is one without it.** -/
theorem conflictOf? (h : script.Outage less) {c : Conflict}
    (hc : less.conflictOf? a = some c) : script.conflictOf? a = some c := by
  unfold ScriptedRemote.conflictOf? at hc ⊢
  cases htime : (a.lookupTarget?.bind fun entity => (less.lookupAnswer entity).time?) with
  | none =>
    rw [htime] at hc
    cases hc
  | some t =>
    obtain ⟨entity, htarget, ht⟩ := Option.bind_eq_some_iff.mp htime
    rw [htarget, Option.bind_some, h.time? ht]
    rwa [htime] at hc

theorem discards (h : script.Outage less) (ha : less.discards a = true) :
    script.discards a = true := by
  unfold ScriptedRemote.discards at ha ⊢
  obtain ⟨c, hc, hdiscards⟩ := (Option.any_eq_true _ _).mp ha
  rw [h.conflictOf? hc]
  exact hdiscards

/-! ## Calls -/

theorem refusal?_eq (h : script.Outage less) (call : Call) :
    less.refusal? call = script.refusal? call :=
  (refusal?_congr (fun t _ => h.refusedTopics t) (fun t _ => h.refusedSubscriptions t)
    h.refusedPosts).symm

theorem accepts_eq (h : script.Outage less) (a : Action) : less.accepts a = script.accepts a := by
  unfold accepts
  simp only [h.refusal?_eq]

/-! ## Reports -/

/-- **What is not discarded fares as it did.** -/
theorem alike (h : script.Outage less) (ha : script.discards a = false) :
    less.discards a = false ∧ less.carriesOut a = script.carriesOut a := by
  have hkept : less.discards a = false := by
    cases hdiscards : less.discards a with
    | false => rfl
    | true => rw [← ha, h.discards hdiscards]
  refine ⟨hkept, ?_⟩
  unfold carriesOut
  rw [hkept, ha, h.accepts_eq]

theorem conflicts_sublist (h : script.Outage less) (queue : List Action) :
    (less.expected queue).conflicts.Sublist (script.expected queue).conflicts := by
  have hconflicts : queue.filterMap less.conflictOf? =
      (queue.filter fun a => (less.conflictOf? a).isSome).filterMap script.conflictOf? := by
    rw [List.filterMap_filter]
    refine List.filterMap_congr fun a _ => ?_
    cases hc : less.conflictOf? a with
    | none => rfl
    | some c => exact (h.conflictOf? hc).symm
  unfold expected
  simp only
  rw [hconflicts]
  exact (List.filter_sublist.filterMap _).map _

/-- **The report of a queue fails open.** -/
theorem failsOpen (h : script.Outage less) (queue : List Action) :
    (script.expected queue).FailsOpen (less.expected queue) := by
  have hcarriesOut : ∀ a : Action, script.carriesOut a = true → less.carriesOut a = true := by
    intro a ha
    rw [(h.alike (discards_of_carriesOut ha)).2, ha]
  have hfails : ∀ a : Action, (!script.carriesOut a && !script.discards a) = true →
      (!less.carriesOut a && !less.discards a) = true := by
    intro a ha
    have hkept := (Bool.not_eq_true' _).mp (Bool.and_eq_true_iff.mp ha).2
    rwa [(h.alike hkept).1, (h.alike hkept).2, ← hkept]
  refine ⟨h.conflicts_sublist queue, ?_, List.monotone_filter_right queue hcarriesOut,
    List.monotone_filter_right queue hfails, rfl, fun a ha => ?_, fun a ha => ?_⟩
  · rw [discarded_expected, discarded_expected]
    exact List.monotone_filter_right queue fun a => h.discards
  · rw [discarded_expected, List.mem_filter]
    simp only [expected, List.mem_filter] at ha
    cases hdiscards : script.discards a with
    | true =>
      rcases ha with ⟨ha, -⟩ | ⟨ha, -⟩
      · exact ⟨ha.1, rfl⟩
      · exact ⟨ha.1, rfl⟩
    | false =>
      -- Then it fares as it did, and is in neither list anew.
      obtain ⟨hkept, hsame⟩ := h.alike hdiscards
      rw [hsame, hkept, hdiscards] at ha
      rcases ha with ⟨ha, hnot⟩ | ⟨ha, hnot⟩
      · exact absurd ha hnot
      · exact absurd ha hnot
  · obtain ⟨-, ha⟩ := List.mem_filter.mp ha
    rw [discarded_expected]
    simp only [expected, List.mem_filter, hcarriesOut a ha,
      (h.alike (discards_of_carriesOut ha)).1]
    exact ⟨fun hfailed => Bool.false_ne_true hfailed.2, fun hlost => Bool.false_ne_true hlost.2⟩

end ScriptedRemote.Outage

/-! ## Syncs -/

namespace Syncer

variable {s less : Syncer ScriptedRemote} {config : Config} {actions : List Action}

/-- A sync in which no answer is cut off reports what is to be expected, whatever the limits are. -/
theorem Serves.report_eq_of_noneExpires (hplain : s.shared.remote.IsPlain) {moves : List Move}
    {run : Run} {shared : Shared ScriptedRemote}
    (h : s.Serves ScriptedRemote.remote config actions moves run shared)
    (hmoves : NoneExpires moves) :
    run.report = s.shared.remote.expected (TopicQueue.linedUp config.fallbackTopic actions) := by
  have hreport := (h.unlimited hmoves).report_eq hplain rfl rfl
  exact hreport

/-- **Syncs fail open.** Two syncs of a batch, one of them in an outage, compare as
`Report.FailsOpen` says, whatever their schedules are, as long as no answer is cut off. The outage
blocks no sync: every schedule leads on to an end. Without limits both syncs return in virtual
time, and their reports compare. -/
theorem sync_fails_open (hplain : s.shared.remote.IsPlain) (hless : less.shared.remote.IsPlain)
    (houtage : s.shared.remote.Outage less.shared.remote) :
    (∀ moves run shared moves' run' shared',
      s.Serves ScriptedRemote.remote config actions moves run shared → NoneExpires moves →
      less.Serves ScriptedRemote.remote config actions moves' run' shared' → NoneExpires moves' →
        run.report.FailsOpen run'.report) ∧
      (∀ moves run shared, less.Follows ScriptedRemote.remote config actions moves run shared →
        ∃ more run' shared',
          less.Serves ScriptedRemote.remote config actions (moves ++ more) run' shared') ∧
      (s.flight = .idle → less.flight = .idle → config.topicsAtATime ≤ mostPlaces →
        config.deliveryLimit = none → config.lookupLimit = none → ∀ turn turn', ∃ r r',
          (s.sync ScriptedRemote.remote config none actions turn).result = .report r ∧
            (less.sync ScriptedRemote.remote config none actions turn').result = .report r' ∧
            r.FailsOpen r') := by
  refine ⟨?_, fun moves run shared h => h.serves, ?_⟩
  · intro moves run shared moves' run' shared' h hmoves h' hmoves'
    rw [h.report_eq_of_noneExpires hplain hmoves, h'.report_eq_of_noneExpires hless hmoves']
    exact houtage.failsOpen _
  · intro hidle hidle' hbound hdelivery hlookup turn turn'
    obtain ⟨moves, run, shared, h, hreport, -⟩ :=
      @sync_serves _ s config actions ScriptedRemote.remote turn hidle hbound
    obtain ⟨moves', run', shared', h', hreport', -⟩ :=
      @sync_serves _ less config actions ScriptedRemote.remote turn' hidle' hbound
    refine ⟨_, _, hreport, hreport', ?_⟩
    rw [h.report_eq hplain hdelivery hlookup, h'.report_eq hless hdelivery hlookup]
    exact houtage.failsOpen _

/-- Nothing can be found out about the post of the early like. -/
def outageScript : ScriptedRemote := { sampleScript with lostLookups := ["p2"] }

/-- The early like makes its call, so there are two more moves. -/
def outageMoves : List Move := sampleMoves ++ [.advance 0, .advance 0]

/-- Both likes were carried out, and the follow failed. -/
def outageRun : Run where
  batch := 3
  tasks :=
    [.finished ⟨[sampleLike, sampleEarly], [], [], 2⟩, .finished ⟨[], [], [sampleFollow], 1⟩]
  places := none

/-- The progress after the sync in the outage, and the log of the remote system. -/
def outageShared : Shared ScriptedRemote where
  progress := ⟨3, 3, 2, 1, 0⟩
  remote := { outageScript with
    calls := [.likePost "p1", .likePost "p2"], lookups := [⟨.post, "p2"⟩] }

/-- The like that lost its conflict is carried out in the outage. -/
theorem fails_open_sample :
    sampleScript.IsPlain ∧ outageScript.IsPlain ∧ sampleScript.Outage outageScript ∧
      (start sampleScript).Serves ScriptedRemote.remote .default sampleBatch sampleMoves sampleRun
        sampleShared ∧
      (start outageScript).Serves ScriptedRemote.remote .default sampleBatch outageMoves outageRun
        outageShared ∧
      sampleRun.report.FailsOpen outageRun.report := by
  have hserves : (start outageScript).Serves ScriptedRemote.remote .default sampleBatch outageMoves
      outageRun outageShared := ⟨⟨rfl, _, rfl, by decide +kernel⟩, rfl⟩
  have houtage : sampleScript.Outage outageScript :=
    ⟨List.nil_subset _, fun _ _ => id, fun _ => Iff.rfl, fun _ => Iff.rfl, fun _ => Iff.rfl⟩
  obtain ⟨hcompared, -, -⟩ := @sync_fails_open (start sampleScript) (start outageScript) .default
    sampleBatch ⟨rfl, rfl⟩ ⟨rfl, rfl⟩ houtage
  exact ⟨⟨rfl, rfl⟩, ⟨rfl, rfl⟩, houtage, sample_serves, hserves, hcompared _ _ _ _ _ _
    sample_serves (Run.noneExpires_of_follow? rfl rfl sample_serves.moved)
    hserves (Run.noneExpires_of_follow? rfl rfl hserves.moved)⟩

end Syncer
end Outbox
