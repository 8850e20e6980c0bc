import Outbox.Proofs.Sync.Apart
import Outbox.Proofs.Sync.Return

/-!
# A breakdown stays within its topic

A script can make whoever calls for a topic break down. The task of such a topic breaks down if it
makes a call for the topic, which it does at the first action that is not discarded and posts, joins
or leaves (`ScriptedRemote.breaksOff`). What the other tasks find out they find out all the same:
the report is that of the batch without the topics that break off, and when the sync has returned
the next one is admitted (`Syncer.sync_isolates`).

* `ScriptedRemote.breaksOff_of_brokenDown`, `ScriptedRemote.not_breaksOff_of_position`: what is on
  record about a task tells whether its topic breaks off.
* `ScriptedRemote.linedUp_spared`: without the actions of the topics that break off, the others are
  lined up as before.
-/

namespace Outbox

variable {fallback : String} {a : Action}

/-! ## Calls for a topic -/

/-- Whether an action has an operation that calls for a topic: a post, a join, or a leave. -/
def Action.callsTopic (a : Action) : Bool :=
  match Operation.ofAction a with
  | .ok (.createPost _ _ _ _) => true
  | .ok (.joinTopic _) => true
  | .ok (.leaveTopic _) => true
  | .ok (.likePost _) => false
  | .error _ => false

/-- A call that names a topic is one of an action that calls for a topic. -/
theorem Action.callsTopic_of_mem {op : Operation} {call : Call} {t : String}
    (hop : Operation.ofAction a = .ok op) (hcall : call ∈ op.calls) (ht : call.topic? = some t) :
    a.callsTopic = true := by
  unfold callsTopic
  rw [hop]
  cases op with
  | likePost postId =>
    rw [List.mem_singleton.mp hcall] at ht
    cases ht
  | createPost content topicId replyTo quotedPost => rfl
  | joinTopic topicId => rfl
  | leaveTopic topicId => rfl

/-- All calls of an action that calls for a topic name its topic, and there is one. -/
theorem Action.topic_of_callsTopic (h : a.callsTopic = true) (fallback : String) :
    ∃ op, Operation.ofAction a = .ok op ∧ op.calls ≠ [] ∧
      ∀ call ∈ op.calls, call.topic? = some (a.topicOr fallback) := by
  unfold callsTopic at h
  cases hop : Operation.ofAction a with
  | error e =>
    rw [hop] at h
    cases h
  | ok op =>
    have hnamed : op.calls ≠ [] ∧ ∀ call ∈ op.calls, ∃ t, call.topic? = some t := by
      rw [hop] at h
      cases op with
      | likePost postId => cases h
      | createPost content topicId replyTo quotedPost => simp [Operation.calls, Call.topic?]
      | joinTopic topicId => simp [Operation.calls, Call.topic?]
      | leaveTopic topicId => simp [Operation.calls, Call.topic?]
    refine ⟨op, rfl, hnamed.1, fun call hcall => ?_⟩
    obtain ⟨t, ht⟩ := hnamed.2 call hcall
    unfold topicOr
    rw [Operation.topic_of_mem_calls hop hcall ht, ht, Option.getD_some]

/-! ## Topics that break off -/

namespace ScriptedRemote

variable {script : ScriptedRemote} {q : TopicQueue} {found : List Finding}

/-- Whether the task of a topic breaks down: callers for the topic do, and some action is carried
out that calls for it. -/
def breaksOff (script : ScriptedRemote) (q : TopicQueue) : Bool :=
  script.breakdownTopics.contains q.topic &&
    q.actions.any fun a => !script.discards a && a.callsTopic

/-- The actions of a batch whose topics do not break off. -/
def spared (script : ScriptedRemote) (fallback : String) (actions : List Action) : List Action :=
  actions.filter fun a => !script.breaksOff (.ofTopic fallback actions (a.topicOr fallback))

theorem breaksOff_iff : script.breaksOff q = true ↔ q.topic ∈ script.breakdownTopics ∧
    ∃ a ∈ q.actions, script.discards a = false ∧ a.callsTopic = true := by
  unfold breaksOff
  simp

/-- A call breaks down where its topic does. -/
theorem callAnswer_eq_breakdown {call : Call} : script.callAnswer call = .breakdown ↔
    ∃ t ∈ script.breakdownTopics, call.topic? = some t := by
  have hbreaks : script.breaksDown call = true ↔
      ∃ t ∈ script.breakdownTopics, call.topic? = some t := by
    unfold breaksDown
    cases call.topic? <;> simp
  rw [← hbreaks]
  unfold callAnswer
  by_cases h : script.breaksDown call = true
  · simp [h]
  · cases script.nextFailure <;> cases script.refusal? call <;> simp [h]

/-- A task breaks down at a call for its topic. -/
theorem breaksOff_of_brokenDown {tally : Report}
    (h : Task.Records script.answers q.actions found (.brokenDown tally))
    (hsorted : ∀ a ∈ q.actions, a.topicOr fallback = q.topic) : script.breaksOff q = true := by
  cases h with
  | @brokenDown _ queue a _ hposition hbreaks _ =>
    have ha : a ∈ q.actions := by
      rw [hposition.split]
      exact List.mem_append_right _ List.mem_cons_self
    cases hbreaks with
    | lookup _ hanswer => exact absurd hanswer.symm (lookupAnswer_ne_breakdown script _)
    | @call conflict made later call hunder hanswer =>
      obtain ⟨t, ht, htopic⟩ := callAnswer_eq_breakdown.mp hanswer.symm
      obtain ⟨op, hop, hcalls⟩ := hunder.operation
      have hcall : call ∈ op.calls := by
        rw [hcalls]
        exact List.mem_append_right _ List.mem_cons_self
      have hdiscards : script.discards a = false := by
        have hprevails := hunder.prevails.not_discarded
        rwa [conflict_eq hunder.finds, Option.any_map] at hprevails
      have hnamed : q.topic = t := by
        rw [← hsorted a ha]
        unfold Action.topicOr
        rw [Operation.topic_of_mem_calls hop hcall htopic, Option.getD_some]
      exact breaksOff_iff.mpr ⟨hnamed ▸ ht, a, ha, hdiscards,
        Action.callsTopic_of_mem hop hcall htopic⟩

/-- An action all of whose calls make the caller break down has no end but to be discarded. -/
theorem any_discards_of_ends {conflict : Option Conflict} {fate : Fate} {op : Operation}
    (h : script.answers.Ends a conflict fate) (hop : Operation.ofAction a = .ok op)
    (hne : op.calls ≠ []) (hbroken : ∀ call ∈ op.calls, script.callAnswer call = .breakdown) :
    conflict.any Conflict.discards = true := by
  cases h with
  | lost hlost => rw [Option.any_some, Conflict.discards_eq, hlost, Bool.not_false]
  | unfit _ hnone =>
    rw [hop] at hnone
    cases hnone
  | @refused _ op' call e _ hop' hcall hanswer =>
    rw [hop] at hop'
    cases hop'
    cases hanswer.trans (hbroken call hcall)
  | @carriedOut _ op' _ hop' hanswers =>
    rw [hop] at hop'
    cases hop'
    obtain ⟨call, hcall⟩ := List.exists_mem_of_ne_nil _ hne
    cases (hanswers call hcall).trans (hbroken call hcall)

/-- A task that has findings about its whole queue has not made a call for a topic that breaks
down. -/
theorem not_breaksOff_of_position (h : Position script.answers q.actions found [])
    (hsorted : ∀ a ∈ q.actions, a.topicOr fallback = q.topic) : script.breaksOff q = false := by
  rw [Bool.eq_false_iff]
  intro hbreaks
  obtain ⟨htopic, a, ha, hdiscards, hcalls⟩ := breaksOff_iff.mp hbreaks
  rw [h.split, List.append_nil] at ha
  obtain ⟨f, hf, rfl⟩ := List.mem_map.mp ha
  have hf' := h.explained f hf
  obtain ⟨op, hop, hne, hnamed⟩ := f.action.topic_of_callsTopic hcalls fallback
  have hown : f.action.topicOr fallback = q.topic := by
    refine hsorted f.action ?_
    rw [h.split, List.append_nil]
    exact ha
  -- Every call of the action makes its caller break down, and gets no other answer.
  have hbroken : ∀ call ∈ op.calls, script.callAnswer call = .breakdown := fun call hcall =>
    callAnswer_eq_breakdown.mpr ⟨q.topic, htopic, hown ▸ hnamed call hcall⟩
  have hany := any_discards_of_ends hf'.ends hop hne hbroken
  rw [conflict_eq hf'.finds, Option.any_map] at hany
  exact Bool.false_ne_true (hdiscards.symm.trans hany)

/-- Fewer actions break off no more topics. -/
theorem not_breaksOff_of_subset {p : TopicQueue} (htopic : p.topic = q.topic)
    (hsubset : p.actions ⊆ q.actions) (h : script.breaksOff q = false) :
    script.breaksOff p = false := by
  rw [Bool.eq_false_iff] at h ⊢
  intro hbreaks
  obtain ⟨hp, a, ha, hcalls⟩ := breaksOff_iff.mp hbreaks
  exact h (breaksOff_iff.mpr ⟨htopic ▸ hp, a, hsubset ha, hcalls⟩)

/-- No topic breaks off that has been spared. -/
theorem spared_spared (script : ScriptedRemote) (fallback : String) (actions : List Action) :
    script.spared fallback (script.spared fallback actions) = script.spared fallback actions := by
  refine List.filter_eq_self.mpr fun a ha => ?_
  have hkept := (List.mem_filter.mp ha).2
  rw [Bool.not_eq_true'] at hkept ⊢
  refine not_breaksOff_of_subset (q := .ofTopic fallback actions (a.topicOr fallback)) rfl
    (fun b hb => ?_) hkept
  obtain ⟨hspared, htopic⟩ := List.mem_filter.mp hb
  exact List.mem_filter.mpr ⟨(List.mem_filter.mp hspared).1, htopic⟩

/-- Findings about a whole queue are those of the tables. -/
theorem found_eq (hnext : script.nextFailure = none)
    (h : Position script.answers q.actions found []) : found = q.actions.map script.finding := by
  rw [h.split, List.append_nil]
  exact eq_findings hnext h.explained

/-- **Without the actions of the topics that break off, the others are lined up as before.** -/
theorem linedUp_spared (script : ScriptedRemote) (fallback : String) (actions : List Action) :
    TopicQueue.linedUp fallback (script.spared fallback actions) =
      TopicQueue.queued ((TopicQueue.ofActions fallback actions).filter
        fun q => !script.breaksOff q) := by
  unfold TopicQueue.linedUp spared
  have hfilter := TopicQueue.filter_ofActions
    (fun t => !script.breaksOff (.ofTopic fallback actions t)) fallback actions
  rw [← hfilter]
  refine congrArg TopicQueue.queued (List.filter_congr fun q hq => ?_)
  rw [← TopicQueue.eq_ofTopic hq]

end ScriptedRemote

/-! ## Syncs -/

namespace Syncer

/-- The task of a topic has a record of its queue. -/
theorem Follows.exists_records {σ : Type} {remote : Remote σ} {config : Config}
    {actions : List Action} {s : Syncer σ} {moves : List Move} {run : Run} {shared : Shared σ}
    {good : σ → Prop} {w : Answers} (h : s.Follows remote config actions moves run shared)
    (hw : remote.Obeys config.limits good w) (hgood : good s.shared.remote) {i : Nat}
    {q : TopicQueue} (hq : (TopicQueue.ofActions config.fallbackTopic actions)[i]? = some q) :
    ∃ task found, run.tasks[i]? = some task ∧ task.Records w q.actions found := by
  obtain ⟨ledger, hqueues, hrecords, -⟩ := Run.Records.follow? hw h.moved hgood
  have hqueue : (ledger.map (·.queue))[i]? = some q.actions := by
    rw [hqueues, List.getElem?_map, hq]
    rfl
  rw [List.getElem?_map] at hqueue
  obtain ⟨account, haccount, hqueue⟩ := Option.map_eq_some_iff.mp hqueue
  obtain ⟨task, htask, hrecord⟩ := exists_of_forall₂ (List.Forall₂.flip hrecords) haccount
  exact ⟨task, account.found, htask, hqueue ▸ hrecord⟩

variable {s s' : Syncer ScriptedRemote} {config config' : Config} {actions : List Action}
  {moves moves' : List Move} {run run' : Run} {shared shared' : Shared ScriptedRemote}

/-- **The task of a topic breaks down if the topic breaks off**, and reports what is to be expected
if it does not. -/
theorem Serves.task_eq (h : s.Serves ScriptedRemote.remote config actions moves run shared)
    (hnext : s.shared.remote.nextFailure = none) (hdelivery : config.deliveryLimit = none)
    (hlookup : config.lookupLimit = none) {i : Nat} {q : TopicQueue}
    (hq : (TopicQueue.ofActions config.fallbackTopic actions)[i]? = some q) :
    ∃ task, run.tasks[i]? = some task ∧
      ((∃ tally, task = .brokenDown tally) ↔ s.shared.remote.breaksOff q = true) ∧
      task.contribution = .ofFindings
        (if s.shared.remote.breaksOff q then [] else q.actions.map s.shared.remote.finding) := by
  have hlimits := Config.limits_eq_none hdelivery hlookup
  have hsorted := TopicQueue.sorted_ofActions config.fallbackTopic actions q
    (List.mem_of_getElem? hq)
  obtain ⟨task, found, htask, hrecord⟩ := h.exists_records
    (ScriptedRemote.obeys hnext config.limits hlimits.1 hlimits.2) ⟨_, _, rfl⟩ hq
  have hended := List.all_eq_true.mp h.done task (List.mem_of_getElem? htask)
  refine ⟨task, htask, ?_⟩
  cases task with
  | brokenDown tally =>
    have hbreaks := ScriptedRemote.breaksOff_of_brokenDown hrecord hsorted
    rw [if_pos hbreaks]
    exact ⟨iff_of_true ⟨tally, rfl⟩ hbreaks, rfl⟩
  | finished tally =>
    obtain ⟨hposition, hcontribution⟩ := hrecord.of_isEnded hended nofun
    have hbreaks := ScriptedRemote.not_breaksOff_of_position hposition hsorted
    rw [hbreaks, hcontribution, ScriptedRemote.found_eq hnext hposition]
    exact ⟨iff_of_false (by rintro ⟨tally, ⟨⟩⟩) Bool.false_ne_true, rfl⟩
  | waiting queue => cases hended
  | active phase queue tally => cases hended

/-- **What is reported is what is to be expected of the topics that do not break off.** -/
theorem Serves.report_spared (h : s.Serves ScriptedRemote.remote config actions moves run shared)
    (hnext : s.shared.remote.nextFailure = none) (hdelivery : config.deliveryLimit = none)
    (hlookup : config.lookupLimit = none) :
    run.report = s.shared.remote.expected (TopicQueue.linedUp config.fallbackTopic
      (s.shared.remote.spared config.fallbackTopic actions)) := by
  have htasks : run.tasks.map Task.contribution =
      ((TopicQueue.ofActions config.fallbackTopic actions).map fun q =>
        if s.shared.remote.breaksOff q then []
        else q.actions.map s.shared.remote.finding).map .ofFindings := by
    refine List.ext_getElem? fun i => ?_
    rw [List.getElem?_map, List.getElem?_map, List.getElem?_map]
    cases hq : (TopicQueue.ofActions config.fallbackTopic actions)[i]? with
    | none =>
      have hbeyond := List.getElem?_eq_none_iff.mp hq
      rw [List.getElem?_eq_none_iff.mpr (h.length_tasks ▸ hbeyond)]
      rfl
    | some q =>
      obtain ⟨task, htask, -, hcontribution⟩ := h.task_eq hnext hdelivery hlookup hq
      rw [htask]
      exact congrArg some hcontribution
  rw [Run.report_of_contributions htasks, ScriptedRemote.linedUp_spared,
    ← ScriptedRemote.ofFindings_finding]
  refine congrArg Report.ofFindings ?_
  induction TopicQueue.ofActions config.fallbackTopic actions with
  | nil => rfl
  | cons q queues ih =>
    rw [List.map_cons, List.flatten_cons, ih, List.filter_cons]
    cases s.shared.remote.breaksOff q with
    | true => rfl
    | false =>
      simp only [Bool.not_false, if_true, Bool.false_eq_true, if_false]
      rw [TopicQueue.queued_cons, List.map_append]

/-- The syncer when a sync has come to its end. -/
def returned {σ : Type} (s : Syncer σ) (config : Config) (actions : List Action) (run : Run)
    (shared : Shared σ) : Syncer σ :=
  let requested := (s.request config actions).2
  { requested with shared, live := requested.live.set s.live.length run }.finish s.live.length

/-- The breakdowns in a sync have no part in what becomes of the other topics, or of the syncer. -/
structure Isolated (s : Syncer ScriptedRemote) (config : Config) (actions : List Action) (run : Run)
    (shared : Shared ScriptedRemote) : Prop where
  /-- A task breaks down if callers for its topic do and it has an action that calls for it. -/
  broken : ∀ (i : Nat) (q : TopicQueue),
    (TopicQueue.ofActions config.fallbackTopic actions)[i]? = some q →
    ((∃ tally, run.tasks[i]? = some (Task.brokenDown tally)) ↔
      q.topic ∈ s.shared.remote.breakdownTopics ∧
        ∃ a ∈ q.actions, s.shared.remote.discards a = false ∧ a.callsTopic = true)
  /-- The report is what is to be expected of the other topics. -/
  expected : run.report = s.shared.remote.expected (TopicQueue.linedUp config.fallbackTopic
    (s.shared.remote.spared config.fallbackTopic actions))
  /-- It is that of any sync of the other topics with the same remote system. -/
  same : ∀ (s' : Syncer ScriptedRemote) (config' : Config) (moves' : List Move) (run' : Run)
    (shared' : Shared ScriptedRemote), s.shared.remote.Logged s'.shared.remote →
    config'.fallbackTopic = config.fallbackTopic → config'.deliveryLimit = none →
    config'.lookupLimit = none →
    s'.Serves ScriptedRemote.remote config' (s.shared.remote.spared config.fallbackTopic actions)
      moves' run' shared' → run'.report = run.report
  idle : (s.returned config actions run shared).flight = .idle
  /-- The next sync is admitted. -/
  admits : ∀ (next : Config) (batch : List Action), next.topicsAtATime ≤ mostPlaces →
    ((s.returned config actions run shared).request next batch).1 = .admitted

theorem Serves.isolated (h : s.Serves ScriptedRemote.remote config actions moves run shared)
    (hnext : s.shared.remote.nextFailure = none) (hdelivery : config.deliveryLimit = none)
    (hlookup : config.lookupLimit = none) : s.Isolated config actions run shared := by
  have hidle : (s.returned config actions run shared).flight = .idle := by
    unfold returned
    rw [request_admitted h.admitted]
    rfl
  refine ⟨fun i q hq => ?_, h.report_spared hnext hdelivery hlookup, ?_, hidle,
    fun next batch hbound => ?_⟩
  · obtain ⟨task, htask, hbroken, -⟩ := h.task_eq hnext hdelivery hlookup hq
    rw [htask, ← ScriptedRemote.breaksOff_iff, ← hbroken]
    simp only [Option.some.injEq]
  · rintro s' config' moves' run' shared' ⟨calls, lookups, hscript⟩ hfallback hdelivery' hlookup' h'
    have hnext' : s'.shared.remote.nextFailure = none := by
      rw [hscript]
      exact hnext
    rw [h.report_spared hnext hdelivery hlookup, h'.report_spared hnext' hdelivery' hlookup',
      hfallback, hscript]
    refine congrArg (fun batch => s.shared.remote.expected (TopicQueue.linedUp _ batch)) ?_
    exact s.shared.remote.spared_spared config.fallbackTopic actions
  · rw [request_of_idle next batch hidle hbound]

/-- **A breakdown stays within its topic.** Let callers for any topics break down. Then a sync is
admitted, each of its schedules leads on to an end, after no more moves than there was work, and
every end is isolated from the breakdowns: only the tasks of these topics that make a call break
down, the report is that of the batch without the actions of these topics, and the next sync is
admitted. In virtual time the sync returns such a report. -/
theorem sync_isolates (hidle : s.flight = .idle) (hbound : config.topicsAtATime ≤ mostPlaces)
    (hnext : s.shared.remote.nextFailure = none) (hdelivery : config.deliveryLimit = none)
    (hlookup : config.lookupLimit = none) :
    (s.request config actions).1 = .admitted ∧
      (∀ moves run shared, s.Follows ScriptedRemote.remote config actions moves run shared →
        moves.length ≤ (Run.ofActions config actions).work ∧
          ∃ more run' shared', s.Serves ScriptedRemote.remote config actions (moves ++ more)
            run' shared') ∧
      (∀ moves run shared, s.Serves ScriptedRemote.remote config actions moves run shared →
        s.Isolated config actions run shared) ∧
      ∀ turn, ∃ moves run shared,
        s.Serves ScriptedRemote.remote config actions moves run shared ∧
        (s.sync ScriptedRemote.remote config none actions turn).result = .report run.report ∧
        (s.sync ScriptedRemote.remote config none actions turn).state = ⟨.idle, shared, s.live⟩ := by
  refine ⟨?_, fun moves run shared h => ⟨?_, h.serves⟩, fun moves run shared h => ?_, fun turn => ?_⟩
  · rw [request_of_idle config actions hidle hbound]
  · have hlength := Run.follow?_length h.moved
    simp only at hlength
    omega
  · exact h.isolated hnext hdelivery hlookup
  · exact sync_serves ScriptedRemote.remote turn hidle hbound

/-- The join breaks down, and the report is that of the like alone. -/
theorem isolates_sample :
    (start brokenScript).Serves ScriptedRemote.remote .default [sampleJoin, sampleLike] brokenMoves
        brokenRun brokenShared ∧
      (start brokenScript).Isolated .default [sampleJoin, sampleLike] brokenRun brokenShared ∧
      brokenScript.spared TopicQueue.commonTopic [sampleJoin, sampleLike] = [sampleLike] ∧
      brokenRun.report = brokenScript.expected [sampleLike] := by
  have hserves : (start brokenScript).Serves ScriptedRemote.remote .default
      [sampleJoin, sampleLike] brokenMoves brokenRun brokenShared :=
    ⟨⟨rfl, _, rfl, by decide +kernel⟩, rfl⟩
  have hbound : Config.default.topicsAtATime ≤ mostPlaces := by decide
  have hmain := @sync_isolates (start brokenScript) .default [sampleJoin, sampleLike] rfl hbound rfl
    rfl rfl
  have hisolated := hmain.2.2.1 _ _ _ hserves
  have hspared : brokenScript.spared TopicQueue.commonTopic [sampleJoin, sampleLike] =
      [sampleLike] := by decide +kernel
  refine ⟨hserves, hisolated, hspared, hisolated.expected.trans ?_⟩
  rw [show (start brokenScript).shared.remote = brokenScript from rfl,
    show Config.default.fallbackTopic = TopicQueue.commonTopic from rfl, hspared]
  rfl

end Syncer
end Outbox
