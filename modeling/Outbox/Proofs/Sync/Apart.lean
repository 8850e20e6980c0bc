import Outbox.Proofs.Decode
import Outbox.Proofs.Sync.Alone

/-!
# Topics do not interfere

A task has to do with the actions of its own topic only: those it reports, and the topics that its
calls name (`Task.Within`). Where two scripts differ in what they say about one topic, the tasks of
the other topics get the same answers, make the same walks and end in the same way. So whatever is
set up for a topic, be it that its calls are refused or that its task breaks down, changes nothing
for the others, in any two schedules (`Syncer.Serves.apart`).

* `Operation.topic_of_mem_calls`: a call names the topic of its action or none.
* `Task.Within.goOn`: a task stays within its topic, and what it asks is within it too.
* `ScriptedRemote.DiffersAt.goOn?_eq`: a task of another topic sees no difference.
-/

namespace Outbox

variable {fallback topic : String} {a : Action}

/-! ## Calls and topics -/

theorem Operation.need_eq_ok {value : Option String} {field s : String}
    (h : need a value field = .ok s) : nonEmpty? value = some s := by
  unfold need Payload.mandatory at h
  split at h
  · rename_i text htext
    cases h
    exact htext
  · cases h

/-- **A call names the topic of its action, or none.** -/
theorem Operation.topic_of_mem_calls {op : Operation} {call : Call} {t : String}
    (hop : ofAction a = .ok op) (hcall : call ∈ op.calls) (ht : call.topic? = some t) :
    a.topic? = some t := by
  unfold ofAction at hop
  split at hop
  · obtain ⟨content, -, hop⟩ := of_bind_eq_ok hop
    obtain ⟨topicId, htopic, hop⟩ := of_bind_eq_ok hop
    cases hop
    cases List.mem_singleton.mp hcall
    cases ht
    exact need_eq_ok htopic
  · obtain ⟨postId, -, hop⟩ := of_bind_eq_ok hop
    cases hop
    cases List.mem_singleton.mp hcall
    cases ht
  · obtain ⟨topicId, htopic, hop⟩ := of_bind_eq_ok hop
    cases hop
    have hnamed : call.topic? = some topicId := by
      rcases List.mem_cons.mp hcall with rfl | hcall
      · rfl
      · rw [List.mem_singleton.mp hcall]
        rfl
    rw [← ht, hnamed]
    exact need_eq_ok htopic
  · obtain ⟨topicId, htopic, hop⟩ := of_bind_eq_ok hop
    cases hop
    cases List.mem_singleton.mp hcall
    cases ht
    exact need_eq_ok htopic
  · cases hop

/-- A call names no other topic than this one. -/
def Call.Within (topic : String) (call : Call) : Prop := ∀ t ∈ call.topic?, t = topic

theorem Operation.within_of_mem_calls (fallback : String) {op : Operation} {call : Call}
    (hop : ofAction a = .ok op) (hcall : call ∈ op.calls) : call.Within (a.topicOr fallback) := by
  intro t ht
  unfold Action.topicOr
  rw [topic_of_mem_calls hop hcall ht, Option.getD_some]

/-! ## Tasks within a topic -/

/-- What is asked names no other topic. -/
def Request.Within (topic : String) (request : Request) : Prop :=
  ∀ call ∈ request.call?, call.Within topic

/-- A report is about the actions of one topic. -/
structure Report.Within (fallback topic : String) (r : Report) : Prop where
  synced : ∀ a ∈ r.synced, a.topicOr fallback = topic
  conflicts : ∀ c ∈ r.conflicts, c.localAction.topicOr fallback = topic
  failed : ∀ a ∈ r.failed, a.topicOr fallback = topic

/-- The action at hand is of the topic, and its calls name no other. -/
def Phase.Within (fallback topic : String) : Phase → Prop
  | .between => True
  | .lookingUp a _ _ => a.topicOr fallback = topic
  | .calling a _ call later _ =>
    a.topicOr fallback = topic ∧ ∀ c ∈ call :: later, c.Within topic

/-- A task has to do with one topic only. -/
def Task.Within (fallback topic : String) : Task → Prop
  | .waiting queue => ∀ a ∈ queue, a.topicOr fallback = topic
  | .active phase queue tally =>
    phase.Within fallback topic ∧ (∀ a ∈ queue, a.topicOr fallback = topic) ∧
      tally.Within fallback topic
  | .finished tally => tally.Within fallback topic
  | .brokenDown tally => tally.Within fallback topic

theorem Report.within_empty : Report.empty.Within fallback topic :=
  ⟨fun _ h => absurd h List.not_mem_nil, fun _ h => absurd h List.not_mem_nil,
    fun _ h => absurd h List.not_mem_nil⟩

namespace Task

variable {queue : List Action} {tally : Report}

theorem forall_mem_append_singleton {α : Type} {p : α → Prop} {l : List α} {x : α}
    (h : ∀ y ∈ l, p y) (hx : p x) : ∀ y ∈ l ++ [x], p y :=
  List.forall_mem_append.mpr ⟨h, List.forall_mem_singleton.mpr hx⟩

section

variable (ha : a.topicOr fallback = topic) (hqueue : ∀ b ∈ queue, b.topicOr fallback = topic)
  (htally : tally.Within fallback topic)

include ha hqueue htally

theorem within_carryOut (conflicted : Bool) {calls : List Call}
    (hcalls : ∀ c ∈ calls, c.Within topic) :
    (carryOut a conflicted calls queue tally).task.Within fallback topic := by
  cases calls with
  | nil =>
    exact ⟨trivial, hqueue, forall_mem_append_singleton htally.synced ha, htally.conflicts,
      htally.failed⟩
  | cons call later => exact ⟨⟨ha, hcalls⟩, hqueue, htally⟩

theorem within_fail (conflicted : Bool) :
    (fail a conflicted queue tally).task.Within fallback topic :=
  ⟨trivial, hqueue, htally.synced, htally.conflicts,
    forall_mem_append_singleton htally.failed ha⟩

theorem within_attempt (conflicted : Bool) :
    (attempt a conflicted queue tally).task.Within fallback topic := by
  unfold attempt
  split
  · exact within_fail ha hqueue htally conflicted
  · rename_i op hop
    refine within_carryOut ha hqueue htally conflicted fun c hc => ?_
    have hwithin := Operation.within_of_mem_calls fallback hop hc
    rwa [ha] at hwithin

theorem within_settle (modifiedAt : Option Timestamp) :
    (settle a (Conflict.ofModification? a modifiedAt) queue tally).task.Within fallback topic := by
  cases hconflict : Conflict.ofModification? a modifiedAt with
  | none => exact within_attempt ha hqueue htally false
  | some c =>
    have hlocal : c.localAction = a := Conflict.localAction_of_ofModification? hconflict
    have hnoted : ({ tally with conflicts := tally.conflicts ++ [c.settle] } : Report).Within
        fallback topic := by
      refine ⟨htally.synced, forall_mem_append_singleton htally.conflicts ?_, htally.failed⟩
      change c.localAction.topicOr fallback = topic
      rw [hlocal, ha]
    unfold settle
    simp only
    split
    · exact within_attempt ha hqueue hnoted true
    · exact ⟨trivial, hqueue, hnoted⟩

theorem within_takeUp : (takeUp a queue tally).task.Within fallback topic := by
  have hcounted : ({ tally with processed := tally.processed + 1 } : Report).Within
      fallback topic := ⟨htally.synced, htally.conflicts, htally.failed⟩
  unfold takeUp
  simp only
  split
  · exact within_settle ha hqueue hcounted none
  · exact ⟨ha, hqueue, hcounted⟩

end

/-- **A task stays within its topic.** -/
theorem Within.advance {σ : Type} {remote : Remote σ} {task : Task} {s s' : σ} {stride : Stride}
    (h : task.Within fallback topic) (hstep : task.Advances remote s stride s') :
    stride.task.Within fallback topic := by
  cases hstep with
  | finish => exact h.2.2
  | takeUp =>
    obtain ⟨ha, hqueue⟩ := List.forall_mem_cons.mp h.2.1
    exact within_takeUp ha hqueue h.2.2
  | look => exact h
  | lookBroke => exact h.2.2
  | looked _ => exact within_settle h.1 h.2.1 h.2.2 _
  | call => exact h
  | callBroke => exact h.2.2
  | refused => exact within_fail h.1.1 h.2.1 h.2.2 _
  | accepted =>
    exact within_carryOut h.1.1 h.2.1 h.2.2 _ (List.forall_mem_cons.mp h.1.2).2

/-- What a task asks is within its topic. -/
theorem Within.request {task : Task} (h : task.Within fallback topic) :
    ∀ request ∈ task.request?, request.Within topic := by
  intro request hrequest call hcall
  unfold request? at hrequest
  split at hrequest
  · cases hrequest
    cases hcall
  · cases hrequest
    cases hcall
    exact h.1.2 _ List.mem_cons_self
  · cases hrequest

theorem Within.goOn {script : ScriptedRemote} {task next : Task} {asked : List Request}
    (h : task.Within fallback topic) (hstep : task.goOn? script = some (asked, next)) :
    next.Within fallback topic ∧ ∀ request ∈ asked, request.Within topic := by
  rcases of_goOn? hstep with ⟨queue, rfl, rfl, rfl⟩ | ⟨stride, s, hadvances, rfl, rfl⟩
  · exact ⟨⟨trivial, h, Report.within_empty⟩, fun _ hmem => absurd hmem List.not_mem_nil⟩
  · exact ⟨h.advance hadvances, fun request hmem => h.request request (Option.mem_toList.mp hmem)⟩

/-- **On its walk a task stays within its topic**, and so does what it asks. -/
theorem Within.walks {script : ScriptedRemote} {task last : Task} {asked : List Request}
    (h : task.Within fallback topic) (hwalk : task.Walks script asked last) :
    last.Within fallback topic ∧ ∀ request ∈ asked, request.Within topic := by
  induction hwalk with
  | stay => exact ⟨h, fun _ hmem => absurd hmem List.not_mem_nil⟩
  | go hstep _ ih =>
    obtain ⟨hnext, hasked⟩ := h.goOn hstep
    obtain ⟨hlast, hmore⟩ := ih hnext
    refine ⟨hlast, fun request hmem => ?_⟩
    rcases List.mem_append.mp hmem with hmem | hmem
    · exact hasked request hmem
    · exact hmore request hmem

theorem Within.contribution {task : Task} (h : task.Within fallback topic) :
    task.contribution.Within fallback topic := by
  cases task with
  | finished tally => exact h
  | waiting _ => exact Report.within_empty
  | active _ _ _ => exact Report.within_empty
  | brokenDown _ => exact Report.within_empty

end Task

/-! ## Scripts that differ at a topic -/

/-- Two scripts differ only in what they say about one topic: whether its calls are refused, its
subscriptions are refused, or its callers break down. -/
structure ScriptedRemote.DiffersAt (topic : String) (script script' : ScriptedRemote) : Prop where
  modifiedAt : script.modifiedAt = script'.modifiedAt
  lostLookups : script.lostLookups = script'.lostLookups
  refusedPosts : script.refusedPosts = script'.refusedPosts
  nextFailure : script.nextFailure = script'.nextFailure
  callDelay : script.callDelay = script'.callDelay
  lookupDelay : script.lookupDelay = script'.lookupDelay
  refusedTopics : ∀ t, t ≠ topic → (t ∈ script.refusedTopics ↔ t ∈ script'.refusedTopics)
  refusedSubscriptions : ∀ t, t ≠ topic →
    (t ∈ script.refusedSubscriptions ↔ t ∈ script'.refusedSubscriptions)
  breakdownTopics : ∀ t, t ≠ topic → (t ∈ script.breakdownTopics ↔ t ∈ script'.breakdownTopics)

namespace ScriptedRemote.DiffersAt

variable {script script' : ScriptedRemote} {other : String}

/-- A call that does not name the topic gets the same answer. -/
theorem callAnswer_eq (h : script.DiffersAt topic script') {call : Call}
    (hcall : call.Within other) (hother : other ≠ topic) :
    script.callAnswer call = script'.callAnswer call := by
  have hne : ∀ t, call.topic? = some t → t ≠ topic := by
    intro t ht
    rw [hcall t ht]
    exact hother
  have hbreaks : script.breaksDown call = script'.breaksDown call := by
    unfold breaksDown
    cases ht : call.topic? with
    | none => rfl
    | some t =>
      simp only
      rw [Bool.eq_iff_iff, List.contains_iff_mem, List.contains_iff_mem]
      exact h.breakdownTopics t (hne t ht)
  have hrefusal : script.refusal? call = script'.refusal? call :=
    refusal?_congr (fun t ht => h.refusedTopics t (hne t ht))
      (fun t ht => h.refusedSubscriptions t (hne t ht)) fun p => by rw [h.refusedPosts]
  unfold callAnswer
  rw [hbreaks, h.nextFailure, hrefusal]

theorem lookupAnswer_eq (h : script.DiffersAt topic script') (entity : Entity) :
    script.lookupAnswer entity = script'.lookupAnswer entity := by
  unfold lookupAnswer
  rw [h.lostLookups, h.modifiedAt]

/-- **A task of another topic sees no difference.** -/
theorem goOn?_eq (h : script.DiffersAt topic script') {task : Task}
    (htask : task.Within fallback other) (hother : other ≠ topic) :
    task.goOn? script = task.goOn? script' := by
  cases task with
  | waiting queue => rfl
  | finished tally => rfl
  | brokenDown tally => rfl
  | active phase queue tally =>
    cases phase with
    | between => cases queue <;> rfl
    | lookingUp a entity reply =>
      cases reply with
      | some reply =>
        obtain ⟨answer, delay⟩ := reply
        cases answer <;> rfl
      | none =>
        unfold Task.goOn? Task.advance? remote
        simp only [h.lookupAnswer_eq, h.lookupDelay, Option.map_some]
    | calling a conflicted call later reply =>
      cases reply with
      | some reply =>
        obtain ⟨answer, delay⟩ := reply
        cases answer <;> rfl
      | none =>
        have hanswer := h.callAnswer_eq (htask.1.2 call List.mem_cons_self) hother
        unfold Task.goOn? Task.advance? remote
        simp only [hanswer, h.callDelay, Option.map_some]

/-- A walk of a task of another topic is a walk against either script. -/
theorem walks (h : script.DiffersAt topic script') {task last : Task} {asked : List Request}
    (hwalk : task.Walks script asked last) (htask : task.Within fallback other)
    (hother : other ≠ topic) : task.Walks script' asked last := by
  induction hwalk with
  | stay => exact .stay
  | go hstep _ ih =>
    have hnext := (htask.goOn hstep).1
    rw [h.goOn?_eq htask hother] at hstep
    exact .go hstep (ih hnext)

end ScriptedRemote.DiffersAt

/-! ## Reports without a topic -/

namespace Report

/-- The lists of a report without what is about one topic. The count is about all topics, so it is
left out. -/
def outside (fallback topic : String) (r : Report) : Report where
  synced := r.synced.filter (·.topicOr fallback ≠ topic)
  conflicts := r.conflicts.filter (·.localAction.topicOr fallback ≠ topic)
  failed := r.failed.filter (·.topicOr fallback ≠ topic)
  processed := 0

theorem outside_append (fallback topic : String) (r other : Report) :
    (r.append other).outside fallback topic =
      (r.outside fallback topic).append (other.outside fallback topic) := by
  simp only [outside, append, List.filter_append]
  rfl

/-- Nothing is left of a report about the topic. -/
theorem Within.outside {r : Report} (h : r.Within fallback topic) :
    r.outside fallback topic = .empty := by
  have hactions : ∀ actions : List Action, (∀ a ∈ actions, a.topicOr fallback = topic) →
      actions.filter (·.topicOr fallback ≠ topic) = [] := fun actions hall =>
    List.filter_eq_nil_iff.mpr fun a ha => by simpa using hall a ha
  have hconflicts : r.conflicts.filter (·.localAction.topicOr fallback ≠ topic) = [] :=
    List.filter_eq_nil_iff.mpr fun c hc => by simpa using h.conflicts c hc
  unfold Report.outside
  rw [hactions r.synced h.synced, hactions r.failed h.failed, hconflicts]
  rfl

end Report

/-- What a report has outside of a topic comes from the tasks one by one. -/
theorem Run.outside_report (fallback topic : String) (r : Run) :
    r.report.outside fallback topic =
      .concat (r.tasks.map fun task => task.contribution.outside fallback topic) := by
  rw [report_eq_concat]
  induction r.tasks with
  | nil => rfl
  | cons task tasks ih =>
    rw [List.map_cons, List.map_cons, Report.concat_cons, Report.concat_cons,
      Report.outside_append, ih]

/-! ## Syncs -/

namespace Syncer

/-- What the task of the topic with an index asks in the course of a schedule. -/
def asked (s : Syncer ScriptedRemote) (config : Config) (actions : List Action)
    (moves : List Move) (task : Nat) : List Request :=
  Run.asked task (Run.history ScriptedRemote.remote config.limits moves
    (Run.ofActions config actions, ⟨.ofBatch actions.length, s.shared.remote⟩))

variable {s s' : Syncer ScriptedRemote} {config : Config} {actions : List Action}
  {moves moves' : List Move} {run run' : Run} {shared shared' : Shared ScriptedRemote}

/-- **The log of the remote system has what the tasks asked**, in this order. -/
theorem Follows.log (h : s.Follows ScriptedRemote.remote config actions moves run shared) :
    ∃ history : List (Nat × Request),
      (∀ task, s.asked config actions moves task = Run.asked task history) ∧
      shared.remote.calls = s.shared.remote.calls ++ history.filterMap (·.2.call?) ∧
      shared.remote.lookups = s.shared.remote.lookups ++ history.filterMap (·.2.entity?) :=
  ⟨_, fun _ => rfl, Run.log_of_follow? h.moved⟩

/-- The task of a topic makes its walk to the end. -/
theorem Serves.walks (h : s.Serves ScriptedRemote.remote config actions moves run shared)
    (hplain : s.shared.remote.nextFailure = none) (hdelivery : config.deliveryLimit = none)
    (hlookup : config.lookupLimit = none) {i : Nat} {q : TopicQueue}
    (hq : (TopicQueue.ofActions config.fallbackTopic actions)[i]? = some q) :
    (Task.waiting q.actions).Within config.fallbackTopic q.topic ∧ ∃ last,
      run.tasks[i]? = some last ∧ last.isEnded = true ∧
        (Task.waiting q.actions).Walks s.shared.remote (s.asked config actions moves i) last := by
  have htask : (Run.ofActions config actions).tasks[i]? = some (.waiting q.actions) := by
    unfold Run.ofActions
    rw [List.getElem?_map, hq]
    rfl
  have hlimits := Config.limits_eq_none hdelivery hlookup
  obtain ⟨last, hlast, hwalk⟩ :=
    Run.walks_of_follow? hplain ⟨_, _, rfl⟩ hlimits.1 hlimits.2 h.moved htask
  refine ⟨?_, last, hlast, ?_, hwalk⟩
  · exact TopicQueue.sorted_ofActions config.fallbackTopic actions q (List.mem_of_getElem? hq)
  · exact List.all_eq_true.mp h.done last (List.mem_of_getElem? hlast)

/-- The calls of a task name its own topic or none. -/
theorem Serves.within_of_asked
    (h : s.Serves ScriptedRemote.remote config actions moves run shared)
    (hplain : s.shared.remote.nextFailure = none) (hdelivery : config.deliveryLimit = none)
    (hlookup : config.lookupLimit = none) {i : Nat} {q : TopicQueue}
    (hq : (TopicQueue.ofActions config.fallbackTopic actions)[i]? = some q) {call : Call}
    (hcall : call ∈ (s.asked config actions moves i).filterMap Request.call?) :
    call.Within q.topic := by
  obtain ⟨hwithin, last, -, -, hwalk⟩ := h.walks hplain hdelivery hlookup hq
  obtain ⟨request, hrequest, hcall⟩ := List.mem_filterMap.mp hcall
  exact (hwithin.walks hwalk).2 request hrequest call hcall

/-- There is one task for each topic. -/
theorem Serves.length_tasks (h : s.Serves ScriptedRemote.remote config actions moves run shared) :
    run.tasks.length = (TopicQueue.ofActions config.fallbackTopic actions).length := by
  have hlength := Run.length_tasks h.moved
  unfold Run.ofActions at hlength
  rwa [List.length_map] at hlength

/-- A task of another topic asks the same and ends in the same way. -/
theorem Serves.same_walk (h : s.Serves ScriptedRemote.remote config actions moves run shared)
    (h' : s'.Serves ScriptedRemote.remote config actions moves' run' shared')
    (hdiffer : s.shared.remote.DiffersAt topic s'.shared.remote)
    (hplain : s.shared.remote.nextFailure = none) (hdelivery : config.deliveryLimit = none)
    (hlookup : config.lookupLimit = none) {i : Nat} {q : TopicQueue}
    (hq : (TopicQueue.ofActions config.fallbackTopic actions)[i]? = some q)
    (hother : q.topic ≠ topic) :
    s.asked config actions moves i = s'.asked config actions moves' i ∧
      run.tasks[i]? = run'.tasks[i]? := by
  obtain ⟨hwithin, last, hlast, hended, hwalk⟩ := h.walks hplain hdelivery hlookup hq
  obtain ⟨-, last', hlast', hended', hwalk'⟩ :=
    h'.walks (hdiffer.nextFailure ▸ hplain) hdelivery hlookup hq
  have hwalked := hdiffer.walks hwalk hwithin hother
  obtain ⟨hasked, rfl⟩ := hwalked.unique hwalk' hended hended'
  exact ⟨hasked, hlast.trans hlast'.symm⟩

/-- What is reported outside of a topic is the same. -/
theorem Serves.outside_eq (h : s.Serves ScriptedRemote.remote config actions moves run shared)
    (h' : s'.Serves ScriptedRemote.remote config actions moves' run' shared')
    (hdiffer : s.shared.remote.DiffersAt topic s'.shared.remote)
    (hplain : s.shared.remote.nextFailure = none) (hdelivery : config.deliveryLimit = none)
    (hlookup : config.lookupLimit = none) :
    run.report.outside config.fallbackTopic topic =
      run'.report.outside config.fallbackTopic topic := by
  rw [Run.outside_report, Run.outside_report]
  refine congrArg Report.concat (List.ext_getElem? fun i => ?_)
  rw [List.getElem?_map, List.getElem?_map]
  cases hq : (TopicQueue.ofActions config.fallbackTopic actions)[i]? with
  | none =>
    have hbeyond := List.getElem?_eq_none_iff.mp hq
    rw [List.getElem?_eq_none_iff.mpr (h.length_tasks ▸ hbeyond),
      List.getElem?_eq_none_iff.mpr (h'.length_tasks ▸ hbeyond)]
  | some q =>
    by_cases hother : q.topic = topic
    · -- Both tasks report about their own topic only, so nothing is left.
      subst hother
      obtain ⟨hwithin, last, hlast, -, hwalk⟩ := h.walks hplain hdelivery hlookup hq
      obtain ⟨-, last', hlast', -, hwalk'⟩ :=
        h'.walks (hdiffer.nextFailure ▸ hplain) hdelivery hlookup hq
      rw [hlast, hlast', Option.map_some, Option.map_some,
        (hwithin.walks hwalk).1.contribution.outside,
        (hwithin.walks hwalk').1.contribution.outside]
    · rw [(h.same_walk h' hdiffer hplain hdelivery hlookup hq hother).2]

/-- **Topics do not interfere.** Let two scripts differ only in what they say about one topic, and
let syncs of the same batch be served by both, without limits and in any two schedules. Then the
actions of the other topics have the same reports and conflicts, and each of their tasks asks the
same. And whatever calls a task makes, they name its own topic or none. -/
theorem Serves.apart (h : s.Serves ScriptedRemote.remote config actions moves run shared)
    (h' : s'.Serves ScriptedRemote.remote config actions moves' run' shared')
    (hdiffer : s.shared.remote.DiffersAt topic s'.shared.remote)
    (hplain : s.shared.remote.nextFailure = none) (hdelivery : config.deliveryLimit = none)
    (hlookup : config.lookupLimit = none) :
    run.report.synced.filter (·.topicOr config.fallbackTopic ≠ topic) =
        run'.report.synced.filter (·.topicOr config.fallbackTopic ≠ topic) ∧
      run.report.failed.filter (·.topicOr config.fallbackTopic ≠ topic) =
        run'.report.failed.filter (·.topicOr config.fallbackTopic ≠ topic) ∧
      run.report.conflicts.filter (·.localAction.topicOr config.fallbackTopic ≠ topic) =
        run'.report.conflicts.filter (·.localAction.topicOr config.fallbackTopic ≠ topic) ∧
      ∀ i q, (TopicQueue.ofActions config.fallbackTopic actions)[i]? = some q →
        (q.topic ≠ topic →
          s.asked config actions moves i = s'.asked config actions moves' i) ∧
        ∀ call ∈ (s.asked config actions moves i).filterMap Request.call? ++
            (s'.asked config actions moves' i).filterMap Request.call?,
          ∀ t, call.topic? = some t → t = q.topic := by
  have houtside := h.outside_eq h' hdiffer hplain hdelivery hlookup
  refine ⟨congrArg Report.synced houtside, congrArg Report.failed houtside,
    congrArg Report.conflicts houtside, fun i q hq => ⟨fun hother => ?_, fun call hcall => ?_⟩⟩
  · exact (h.same_walk h' hdiffer hplain hdelivery hlookup hq hother).1
  · rcases List.mem_append.mp hcall with hcall | hcall
    · exact h.within_of_asked hplain hdelivery hlookup hq hcall
    · exact h'.within_of_asked (hdiffer.nextFailure ▸ hplain) hdelivery hlookup hq hcall

/-- The join comes first, and the like has no topic. -/
def joinMoves : List Move :=
  [.start 0, .start 1] ++ List.replicate 6 (.advance 0) ++ List.replicate 4 (.advance 1)

/-- Both are carried out. -/
def joinRun : Run :=
  ⟨2, [.finished ⟨[sampleJoin], [], [], 1⟩, .finished ⟨[sampleLike], [], [], 1⟩], none⟩

/-- The progress and the log. -/
def joinShared : Shared ScriptedRemote where
  progress := ⟨2, 2, 2, 0, 0⟩
  remote := { ScriptedRemote.empty with calls := [.joinTopic "t", .subscribe "t", .likePost "p1"] }

/-- The like comes first, and then the join breaks down at its first call. -/
def brokenMoves : List Move :=
  [.start 1, .start 0] ++ List.replicate 4 (.advance 1) ++ List.replicate 3 (.advance 0)

/-- The like is carried out all the same. -/
def brokenRun : Run :=
  ⟨2, [.brokenDown ⟨[], [], [], 1⟩, .finished ⟨[sampleLike], [], [], 1⟩], none⟩

/-- The progress and the log. -/
def brokenShared : Shared ScriptedRemote where
  progress := ⟨2, 1, 1, 0, 0⟩
  remote := { brokenScript with calls := [.likePost "p1", .joinTopic "t"] }

theorem apart_sample :
    (start .empty).Serves ScriptedRemote.remote .default [sampleJoin, sampleLike] joinMoves joinRun
        joinShared ∧
      (start brokenScript).Serves ScriptedRemote.remote .default [sampleJoin, sampleLike]
        brokenMoves brokenRun brokenShared ∧
      ScriptedRemote.empty.DiffersAt "t" brokenScript ∧
      joinRun.report.synced.filter (·.topicOr TopicQueue.commonTopic ≠ "t") =
        brokenRun.report.synced.filter (·.topicOr TopicQueue.commonTopic ≠ "t") ∧
      (start .empty).asked .default [sampleJoin, sampleLike] joinMoves 1 =
        (start brokenScript).asked .default [sampleJoin, sampleLike] brokenMoves 1 := by
  have hserves : (start .empty).Serves ScriptedRemote.remote .default [sampleJoin, sampleLike]
      joinMoves joinRun joinShared := ⟨⟨rfl, _, rfl, by decide +kernel⟩, rfl⟩
  have hserves' : (start brokenScript).Serves ScriptedRemote.remote .default
      [sampleJoin, sampleLike] brokenMoves brokenRun brokenShared :=
    ⟨⟨rfl, _, rfl, by decide +kernel⟩, rfl⟩
  have hdiffer : ScriptedRemote.empty.DiffersAt "t" brokenScript :=
    ⟨rfl, rfl, rfl, rfl, rfl, rfl, fun _ _ => Iff.rfl, fun _ _ => Iff.rfl,
      fun _ hne => (iff_of_false List.not_mem_nil (mt List.mem_singleton.mp hne))⟩
  obtain ⟨hsynced, -, -, htasks⟩ := hserves.apart hserves' hdiffer rfl rfl rfl
  exact ⟨hserves, hserves', hdiffer, hsynced, (htasks 1 _ rfl).1 (by decide)⟩

end Syncer
end Outbox
