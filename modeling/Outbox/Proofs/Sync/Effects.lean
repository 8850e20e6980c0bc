import Outbox.Proofs.Sync.Apart

/-!
# The calls of a sync

Which calls a sync makes of a script is known beforehand. An action that is discarded or has no
operation makes none; a join makes one call if it is refused and two if it is not; the other actions
make one (`ScriptedRemote.callsOf`). The task of a topic makes the calls of its actions in the order
of its queue, and the log of the remote system is these sequences taking turns
(`Syncer.Serves.makes`). So no call is left out, made twice, or made out of turn, whatever the
schedule.

* `Action.Issues`: a call carries the fields of its action, and those that name something are not
  empty.
* `Interleaves`: a list is made up of several ones, each in its own order.
* `Task.walks_queue`: the walk of a task asks what its actions ask, one after the other, and ends
  with the report that is to be expected of them.
-/

namespace Outbox

variable {a : Action}

/-! ## Calls and fields -/

/-- A call is one of an action of this kind and has its fields. -/
def Action.Issues (a : Action) : Call → Prop
  | .createPost content topicId replyTo quotedPost =>
    a.kind = .createPost ∧ a.payload.content = some content ∧ a.payload.topicId = some topicId ∧
      replyTo = a.payload.replyTo ∧ quotedPost = a.payload.quotedPost
  | .likePost postId => a.kind = .likePost ∧ a.payload.postId = some postId
  | .joinTopic topicId => a.kind = .joinTopic ∧ a.payload.topicId = some topicId
  | .leaveTopic topicId => a.kind = .leaveTopic ∧ a.payload.topicId = some topicId
  | .subscribe topicId => a.kind = .joinTopic ∧ a.payload.topicId = some topicId

/-- What a call posts is not empty, and it names the post or the topic that it is about. -/
def Call.Filled : Call → Prop
  | .createPost content topicId _ _ => content ≠ "" ∧ topicId ≠ ""
  | .likePost postId => postId ≠ ""
  | .joinTopic topicId => topicId ≠ ""
  | .leaveTopic topicId => topicId ≠ ""
  | .subscribe topicId => topicId ≠ ""

/-- **The calls of an operation carry the fields of its action**, and none is empty. -/
theorem Operation.issues_of_mem_calls {op : Operation} {call : Call} (hop : ofAction a = .ok op)
    (hcall : call ∈ op.calls) : a.Issues call ∧ call.Filled := by
  unfold ofAction at hop
  split at hop
  · rename_i hkind
    obtain ⟨content, hcontent, hop⟩ := of_bind_eq_ok hop
    obtain ⟨topicId, htopic, hop⟩ := of_bind_eq_ok hop
    cases hop
    cases List.mem_singleton.mp hcall
    obtain ⟨hcontent, hfilled⟩ := nonEmpty?_eq_some_iff.mp (need_eq_ok hcontent)
    obtain ⟨htopic, hnamed⟩ := nonEmpty?_eq_some_iff.mp (need_eq_ok htopic)
    exact ⟨⟨hkind, hcontent, htopic, rfl, rfl⟩, hfilled, hnamed⟩
  · rename_i hkind
    obtain ⟨postId, hpost, hop⟩ := of_bind_eq_ok hop
    cases hop
    cases List.mem_singleton.mp hcall
    obtain ⟨hpost, hnamed⟩ := nonEmpty?_eq_some_iff.mp (need_eq_ok hpost)
    exact ⟨⟨hkind, hpost⟩, hnamed⟩
  · rename_i hkind
    obtain ⟨topicId, htopic, hop⟩ := of_bind_eq_ok hop
    cases hop
    obtain ⟨htopic, hnamed⟩ := nonEmpty?_eq_some_iff.mp (need_eq_ok htopic)
    rcases List.mem_cons.mp hcall with rfl | hcall
    · exact ⟨⟨hkind, htopic⟩, hnamed⟩
    · rw [List.mem_singleton.mp hcall]
      exact ⟨⟨hkind, htopic⟩, hnamed⟩
  · rename_i hkind
    obtain ⟨topicId, htopic, hop⟩ := of_bind_eq_ok hop
    cases hop
    cases List.mem_singleton.mp hcall
    obtain ⟨htopic, hnamed⟩ := nonEmpty?_eq_some_iff.mp (need_eq_ok htopic)
    exact ⟨⟨hkind, htopic⟩, hnamed⟩
  · cases hop

namespace ScriptedRemote

variable {script : ScriptedRemote}

/-- The calls that an action makes. -/
def callsOf (script : ScriptedRemote) (a : Action) : List Call :=
  if script.discards a then []
  else
    match Operation.ofAction a with
    | .error _ => []
    | .ok (.createPost content topicId replyTo quotedPost) =>
      [.createPost content topicId replyTo quotedPost]
    | .ok (.likePost postId) => [.likePost postId]
    | .ok (.leaveTopic topicId) => [.leaveTopic topicId]
    | .ok (.joinTopic topicId) =>
      if script.refusedTopics.contains topicId then [.joinTopic topicId]
      else [.joinTopic topicId, .subscribe topicId]

/-- Calls are made in order up to the first one that is refused. -/
def upToRefused (script : ScriptedRemote) : List Call → List Call
  | [] => []
  | call :: later =>
    if (script.refusal? call).isSome then [call] else call :: script.upToRefused later

/-- An action makes the calls of its operation up to the first one that is refused. -/
theorem callsOf_eq (script : ScriptedRemote) (a : Action) :
    script.callsOf a =
      if script.discards a then []
      else
        match Operation.ofAction a with
        | .error _ => []
        | .ok op => script.upToRefused op.calls := by
  have hlast : ∀ call, script.upToRefused [call] = [call] := by
    intro call
    unfold upToRefused
    split
    · rfl
    · rfl
  unfold callsOf
  split
  · rfl
  · cases Operation.ofAction a with
    | error e => rfl
    | ok op =>
      cases op with
      | createPost content topicId replyTo quotedPost => exact (hlast _).symm
      | likePost postId => exact (hlast _).symm
      | leaveTopic topicId => exact (hlast _).symm
      | joinTopic topicId =>
        have hrefusal : (script.refusal? (.joinTopic topicId)).isSome =
            script.refusedTopics.contains topicId := by
          unfold refusal? refusal?.refusedTopic
          simp only
          split <;> simp_all
        simp only [Operation.calls]
        rw [upToRefused, hrefusal, hlast]

theorem upToRefused_subset (script : ScriptedRemote) (calls : List Call) :
    script.upToRefused calls ⊆ calls := by
  induction calls with
  | nil => exact List.Subset.refl _
  | cons call calls ih =>
    unfold upToRefused
    split
    · exact List.cons_subset_cons call (List.nil_subset _)
    · exact List.cons_subset_cons call ih

/-- **An action makes calls with its own fields**, and none is empty. -/
theorem issues_of_mem_callsOf {call : Call} (h : call ∈ script.callsOf a) :
    a.Issues call ∧ call.Filled := by
  rw [callsOf_eq] at h
  split at h
  · cases h
  · cases hop : Operation.ofAction a with
    | error e =>
      rw [hop] at h
      cases h
    | ok op =>
      rw [hop] at h
      exact Operation.issues_of_mem_calls hop (script.upToRefused_subset op.calls h)

theorem not_discards_of_mem_callsOf {call : Call} (h : call ∈ script.callsOf a) :
    script.discards a = false := by
  cases hdiscards : script.discards a with
  | false => rfl
  | true =>
    unfold callsOf at h
    rw [if_pos hdiscards] at h
    cases h

/-- What a task asks about an action. -/
def asks (script : ScriptedRemote) (a : Action) : List Request :=
  (a.lookupTarget?.map Request.lookup).toList ++ (script.callsOf a).map .call

theorem calls_asks (script : ScriptedRemote) (a : Action) :
    (script.asks a).filterMap Request.call? = script.callsOf a := by
  unfold asks
  rw [List.filterMap_append, List.filterMap_map]
  cases a.lookupTarget? with
  | none => simp [Request.call?, Function.comp_def]
  | some entity => simp [Request.call?, Function.comp_def]

end ScriptedRemote

/-! ## Walks -/

namespace Task

variable {script : ScriptedRemote}

theorem Walks.trans {task next last : Task} {asked more : List Request}
    (h : Walks script task asked next) (hmore : Walks script next more last) :
    Walks script task (asked ++ more) last := by
  induction h with
  | stay => exact hmore
  | go hstep _ ih =>
    rw [List.append_assoc]
    exact .go hstep (ih hmore)

/-- One step. -/
theorem Walks.one {task next : Task} {asked : List Request}
    (h : task.goOn? script = some (asked, next)) : Walks script task asked next := by
  have hwalk := Walks.go h .stay
  rwa [List.append_nil] at hwalk

/-- One step with which nothing is asked. -/
theorem Walks.silent {task next last : Task} {asked : List Request}
    (h : task.goOn? script = some ([], next)) (hwalk : Walks script next asked last) :
    Walks script task asked last := .go h hwalk

/-- A task makes the calls of an action up to the first one that is refused, and notes whether there
was one. -/
theorem walks_carryOut (hplain : script.IsPlain) (a : Action) (conflict : Option Conflict)
    (calls : List Call) (queue : List Action) (r : Report) :
    Walks script (carryOut a conflict.isSome calls queue (r.begun conflict)).task
      ((script.upToRefused calls).map .call)
      (.active .between queue (r.append (.ofFindings [⟨a, conflict,
        if calls.all fun call => (script.refusal? call).isNone then .synced else .failed⟩]))) := by
  induction calls with
  | nil =>
    rw [List.all_nil, if_pos rfl, Report.append_synced]
    exact .stay
  | cons call later ih =>
    have hasked : (Task.active (.calling a conflict.isSome call later none) queue
        (r.begun conflict)).goOn? script = some ([.call call],
          .active (.calling a conflict.isSome call later
            (some ⟨script.callAnswer call, ScriptedRemote.kept script.callDelay⟩)) queue
            (r.begun conflict)) := rfl
    unfold ScriptedRemote.upToRefused
    rw [ScriptedRemote.callAnswer_of_isPlain hplain] at hasked
    rw [List.all_cons]
    cases hrefusal : script.refusal? call with
    | some e =>
      -- The calls that are left are not made.
      rw [hrefusal] at hasked
      rw [Option.isNone_some, Bool.false_and, if_neg Bool.false_ne_true, Report.append_failed]
      exact (Walks.one hasked).trans (Walks.one rfl)
    | none =>
      rw [hrefusal] at hasked
      rw [Option.isNone_none, Bool.true_and]
      exact (Walks.one hasked).trans (.silent rfl ih)

/-- A task makes the calls of an action, unless its conflict discards it. -/
theorem walks_settle (hplain : script.IsPlain) (a : Action) (queue : List Action) (r : Report) :
    Walks script (settle a (script.conflictOf? a) queue (r.begun none)).task
      ((script.callsOf a).map .call)
      (.active .between queue (r.append (.ofFindings [script.finding a]))) := by
  -- With or without a conflict, an action that is not discarded is attempted.
  have hattempt : ∀ conflict : Option Conflict, script.discards a = false →
      Walks script (attempt a conflict.isSome queue (r.begun conflict)).task
        ((script.callsOf a).map .call) (.active .between queue
          (r.append (.ofFindings [⟨a, conflict, script.fateOf a⟩]))) := by
    intro conflict hdiscards
    unfold attempt ScriptedRemote.fateOf ScriptedRemote.accepts
    rw [ScriptedRemote.callsOf_eq, hdiscards]
    cases Operation.ofAction a with
    | error e =>
      simp only [Bool.false_eq_true, ↓reduceIte, Report.append_failed]
      exact .stay
    | ok op => exact walks_carryOut hplain a conflict op.calls queue r
  have hdiscards : script.discards a =
      (script.conflictOf? a).any fun c => c.settle.discards := rfl
  unfold settle ScriptedRemote.finding
  cases hconflict : script.conflictOf? a with
  | none =>
    rw [hconflict] at hdiscards
    exact hattempt none hdiscards
  | some c =>
    rw [hconflict, Option.any_some, Conflict.discards_eq] at hdiscards
    simp only
    rw [Report.begun_some, Option.map_some]
    split
    · rename_i hprevails
      rw [hprevails] at hdiscards
      exact hattempt (some c.settle) hdiscards
    · rename_i hprevails
      have hlost : prevails c.settle = false := Bool.not_eq_true _ ▸ hprevails
      rw [hlost] at hdiscards
      unfold ScriptedRemote.fateOf
      rw [ScriptedRemote.callsOf_eq, hdiscards, Bool.not_false, if_pos rfl, if_pos rfl,
        Report.append_lost]
      exact .stay

/-- An answer to a look-up settles the action. -/
theorem goOn?_looked (script : ScriptedRemote) (a : Action) (entity : Entity) (queue : List Action)
    (tally : Report) :
    (Task.active (.lookingUp a entity (some ⟨script.lookupAnswer entity,
      ScriptedRemote.kept script.lookupDelay⟩)) queue tally).goOn? script =
        some ([], (settle a (Conflict.ofModification? a (script.lookupAnswer entity).time?) queue
          tally).task) := by
  cases hanswer : script.lookupAnswer entity with
  | value t => rfl
  | error e => rfl
  | breakdown => exact absurd hanswer (ScriptedRemote.lookupAnswer_ne_breakdown script entity)

/-- **A task asks what there is to ask about an action**, notes what it found out, and goes on to
the next one. -/
theorem walks_action (hplain : script.IsPlain) (a : Action) (queue : List Action) (r : Report) :
    Walks script (.active .between (a :: queue) r) (script.asks a)
      (.active .between queue (r.append (.ofFindings [script.finding a]))) := by
  have htaken : (Task.active .between (a :: queue) r).goOn? script =
      some ([], (takeUp a queue r).task) := rfl
  have hwalk := walks_settle hplain a queue r
  refine .silent htaken ?_
  unfold takeUp ScriptedRemote.asks
  rw [Report.begun_none] at hwalk
  unfold ScriptedRemote.conflictOf? at hwalk
  cases htarget : a.lookupTarget? with
  | none =>
    rw [htarget] at hwalk
    exact hwalk
  | some entity =>
    rw [htarget] at hwalk
    exact (Walks.one rfl).trans (.silent (goOn?_looked script a entity queue _) hwalk)

/-- **The walk of a task through a queue** asks what its actions ask, one after the other, and adds
what is to be expected of them to the tally. -/
theorem walks_between (hplain : script.IsPlain) (queue : List Action) (r : Report) :
    Walks script (.active .between queue r) (queue.flatMap script.asks)
      (.finished (r.append (script.expected queue))) := by
  induction queue generalizing r with
  | nil =>
    have hended : script.expected [] = .empty := rfl
    rw [hended, Report.append_empty]
    exact .one rfl
  | cons a queue ih =>
    have hrest := ih (r.append (.ofFindings [script.finding a]))
    rw [← ScriptedRemote.ofFindings_finding] at hrest ⊢
    rw [Report.append_assoc, ← Report.ofFindings_append] at hrest
    rw [List.flatMap_cons]
    exact (walks_action hplain a queue r).trans hrest

theorem walks_queue (hplain : script.IsPlain) (queue : List Action) :
    Walks script (.waiting queue) (queue.flatMap script.asks)
      (.finished (script.expected queue)) := by
  have hwalk := walks_between hplain queue .empty
  rw [Report.empty_append] at hwalk
  exact .silent rfl hwalk

end Task

/-! ## Sequences that take turns -/

/-- A list is made up of the parts, each in its own order. -/
def Interleaves {α : Type} (parts : List (List α)) (whole : List α) : Prop :=
  ∃ tagged : List (Nat × α), tagged.map Prod.snd = whole ∧
    (∀ e ∈ tagged, e.1 < parts.length) ∧
    ∀ i part, parts[i]? = some part → (tagged.filter (·.1 = i)).map Prod.snd = part

/-- Entries with small tags fall into those with each tag. -/
theorem filter_lt_perm {α : Type} (tagged : List (Nat × α)) (n : Nat) :
    (tagged.filter (·.1 < n)).Perm ((List.range n).flatMap fun i => tagged.filter (·.1 = i)) := by
  induction n with
  | zero => simp
  | succ n ih =>
    have hsplit := List.filter_append_perm (fun e : Nat × α => decide (e.1 < n))
      (tagged.filter (·.1 < n + 1))
    have hbelow : (tagged.filter (·.1 < n + 1)).filter (fun e => decide (e.1 < n)) =
        tagged.filter (·.1 < n) := by
      rw [List.filter_filter]
      refine List.filter_congr fun e _ => ?_
      simp only [← Bool.decide_and, decide_eq_decide]
      omega
    have hlast : (tagged.filter (·.1 < n + 1)).filter (fun e => !decide (e.1 < n)) =
        tagged.filter (·.1 = n) := by
      rw [List.filter_filter]
      refine List.filter_congr fun e _ => ?_
      simp only [← decide_not, ← Bool.decide_and, decide_eq_decide]
      omega
    rw [hbelow, hlast] at hsplit
    rw [List.range_succ, List.flatMap_append, List.flatMap_singleton]
    exact hsplit.symm.trans (ih.append_right _)

/-- **A list that is made up of parts has their entries**, each as often as they have it. -/
theorem Interleaves.perm {α : Type} {parts : List (List α)} {whole : List α}
    (h : Interleaves parts whole) : whole.Perm parts.flatten := by
  obtain ⟨tagged, rfl, htags, hparts⟩ := h
  have hall : tagged.filter (·.1 < parts.length) = tagged :=
    List.filter_eq_self.mpr fun e he => decide_eq_true (htags e he)
  have hperm := (filter_lt_perm tagged parts.length).map Prod.snd
  rw [hall, List.map_flatMap] at hperm
  have hflatten : ((List.range parts.length).flatMap fun i =>
      (tagged.filter (·.1 = i)).map Prod.snd) = parts.flatten := by
    refine congrArg List.flatten (List.ext_getElem? fun i => ?_)
    rw [List.getElem?_map]
    by_cases hi : i < parts.length
    · rw [List.getElem?_range hi, List.getElem?_eq_getElem hi]
      exact congrArg some (hparts i _ (List.getElem?_eq_getElem hi))
    · rw [List.getElem?_eq_none (Nat.le_of_not_lt hi),
        List.getElem?_eq_none (by rw [List.length_range]; exact Nat.le_of_not_lt hi)]
      rfl
  rwa [hflatten] at hperm

/-- The calls that are made for a batch: the topics take turns, and each makes the calls of its
actions in the order of its queue. -/
structure ScriptedRemote.Makes (script : ScriptedRemote) (fallback : String)
    (actions : List Action) (made : List Call) : Prop where
  inTurn : Interleaves ((TopicQueue.ofActions fallback actions).map fun q =>
    q.actions.flatMap script.callsOf) made
  /-- No call is left out or made twice. -/
  once : made.Perm (actions.flatMap script.callsOf)
  /-- Every call is one of an action that is not discarded. -/
  issued : ∀ call ∈ made, call.Filled ∧
    ∃ a ∈ actions, script.discards a = false ∧ a.Issues call

theorem ScriptedRemote.Makes.of_interleaves {script : ScriptedRemote} {fallback : String}
    {actions : List Action} {made : List Call}
    (h : Interleaves ((TopicQueue.ofActions fallback actions).map fun q =>
      q.actions.flatMap script.callsOf) made) : script.Makes fallback actions made := by
  have honce : made.Perm (actions.flatMap script.callsOf) := by
    refine h.perm.trans ?_
    rw [← List.flatMap_def, ← List.flatMap_assoc]
    exact (TopicQueue.linedUp_perm fallback actions).flatMap_right _
  refine ⟨h, honce, fun call hcall => ?_⟩
  obtain ⟨a, ha, hcall⟩ := List.mem_flatMap.mp (honce.mem_iff.mp hcall)
  obtain ⟨hissues, hfilled⟩ := issues_of_mem_callsOf hcall
  exact ⟨hfilled, a, ha, not_discards_of_mem_callsOf hcall, hissues⟩

/-! ## The log of a sync -/

namespace Run

/-- Whoever asks is a task of the run. -/
theorem lt_of_mem_history {σ : Type} {remote : Remote σ} {limits : Limits} {moves : List Move}
    {s : Run × Shared σ} {e : Nat × Request} (h : e ∈ history remote limits moves s) :
    e.1 < s.1.tasks.length := by
  induction moves generalizing s with
  | nil => cases h
  | cons move moves ih =>
    unfold history at h
    split at h
    · rename_i next hnext
      have hone : follow? remote limits [move] s = some next :=
        follow?_cons.mpr ⟨next, hnext, rfl⟩
      have hlength := length_tasks hone
      rcases List.mem_append.mp h with h | h
      · have hrequest := Option.mem_toList.mp h
        cases move with
        | start i => cases hrequest
        | expire i => cases hrequest
        | advance i =>
          obtain ⟨request, hasked, rfl⟩ := Option.map_eq_some_iff.mp hrequest
          obtain ⟨task, htask, -⟩ := Option.bind_eq_some_iff.mp hasked
          exact (List.getElem?_eq_some_iff.mp htask).1
      · rw [← hlength]
        exact ih h
    · cases h

/-- The calls of a history, with the tasks that made them. -/
def calls (history : List (Nat × Request)) : List (Nat × Call) :=
  history.filterMap fun e => e.2.call?.map fun call => (e.1, call)

theorem map_snd_calls (history : List (Nat × Request)) :
    (calls history).map Prod.snd = history.filterMap (·.2.call?) := by
  unfold calls
  rw [List.map_filterMap]
  refine List.filterMap_congr fun e _ => ?_
  rw [Option.map_map]
  exact Option.map_id' 

/-- The calls of one task are those among what it asked. -/
theorem filter_calls (task : Nat) (history : List (Nat × Request)) :
    ((calls history).filter (·.1 = task)).map Prod.snd =
      (asked task history).filterMap Request.call? := by
  unfold calls asked
  rw [List.filter_filterMap, List.map_filterMap, List.filterMap_map, List.filterMap_filter]
  refine List.filterMap_congr fun e _ => ?_
  cases hcall : e.2.call? with
  | none => simp [hcall]
  | some call => by_cases htask : e.1 = task <;> simp [hcall, htask]

end Run

namespace Syncer

variable {s : Syncer ScriptedRemote} {config : Config} {actions : List Action}
  {moves : List Move} {run : Run} {shared : Shared ScriptedRemote}

/-- The task of a topic asks what its actions ask. -/
theorem Serves.asked_eq (h : s.Serves ScriptedRemote.remote config actions moves run shared)
    (hplain : s.shared.remote.IsPlain) (hdelivery : config.deliveryLimit = none)
    (hlookup : config.lookupLimit = none) {i : Nat} {q : TopicQueue}
    (hq : (TopicQueue.ofActions config.fallbackTopic actions)[i]? = some q) :
    s.asked config actions moves i = q.actions.flatMap s.shared.remote.asks := by
  obtain ⟨-, last, -, hended, hwalk⟩ := h.walks hplain.nextFailure hdelivery hlookup hq
  exact (hwalk.unique (Task.walks_queue hplain q.actions) hended rfl).1

/-- **The calls of a sync are those of its actions.** -/
theorem Serves.makes (h : s.Serves ScriptedRemote.remote config actions moves run shared)
    (hplain : s.shared.remote.IsPlain) (hdelivery : config.deliveryLimit = none)
    (hlookup : config.lookupLimit = none) :
    ∃ made, shared.remote.calls = s.shared.remote.calls ++ made ∧
      s.shared.remote.Makes config.fallbackTopic actions made := by
  have hlog := (Run.log_of_follow? h.moved).1
  generalize hhistory : Run.history ScriptedRemote.remote config.limits moves
    (Run.ofActions config actions, ⟨.ofBatch actions.length, s.shared.remote⟩) = history at hlog
  -- The tag of a call is the task that made it.
  refine ⟨_, hlog, .of_interleaves ⟨Run.calls history, Run.map_snd_calls history, ?_, ?_⟩⟩
  · intro e he
    obtain ⟨e', he', htag⟩ := List.mem_filterMap.mp he
    obtain ⟨call, -, rfl⟩ := Option.map_eq_some_iff.mp htag
    rw [← hhistory] at he'
    have hlt := Run.lt_of_mem_history he'
    unfold Run.ofActions at hlt
    rw [List.length_map] at hlt ⊢
    exact hlt
  · intro i part hpart
    rw [List.getElem?_map] at hpart
    obtain ⟨q, hq, rfl⟩ := Option.map_eq_some_iff.mp hpart
    have hasked := h.asked_eq hplain hdelivery hlookup hq
    unfold asked at hasked
    rw [hhistory] at hasked
    rw [Run.filter_calls, hasked, List.filterMap_flatMap]
    exact List.flatMap_congr fun a _ => s.shared.remote.calls_asks a

end Syncer
end Outbox
