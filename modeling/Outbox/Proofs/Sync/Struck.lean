import Outbox.Proofs.Sync.FirstCall

/-!
# A failure that is set for the next call

Where a failure is set for the next call, the tasks of a sync race for it, and one of them meets it.
Its action fails, and it goes on with the next one as if nothing had happened
(`Task.Stumbles.contribution`); the other tasks make the walks that they make without the failure
(`Run.struck_of_follow?`). So the report is the one without the failure, but that one action, at its
place in the lined-up queue, is among those that failed (`Report.FailedOne`).

`Syncer.Follows.struck` says this of every schedule in which a call is made. Which action it is
depends on the schedule. It may be one that would have failed anyway.
-/

namespace Outbox

variable {script : ScriptedRemote} {a : Action}

/-! ## The task that meets the failure -/

/-- What is found out about an action if a call of it fails. -/
def ScriptedRemote.failing (script : ScriptedRemote) (a : Action) : Finding :=
  ⟨a, (script.conflictOf? a).map Conflict.settle, .failed⟩

namespace Task

variable {task last : Task} {asked : List Request}

/-- A walk keeps the record of a task. -/
theorem Records.walks (hplain : script.nextFailure = none) {whole : List Action}
    {found : List Finding} (h : task.Records script.answers whole found)
    (hwalk : task.Walks script asked last) :
    ∃ more, last.Records script.answers whole (found ++ more) := by
  induction hwalk generalizing found with
  | stay => exact ⟨[], by rwa [List.append_nil]⟩
  | @go task next _ _ _ hstep _ ih =>
    have hnext : ∃ new : Option Finding,
        next.Records script.answers whole (found ++ new.toList) := by
      rcases of_goOn? hstep with ⟨queue, rfl, -, rfl⟩ | ⟨stride, s, hadvances, -, rfl⟩
      · obtain ⟨new, hrecord, -⟩ := h.begun
        exact ⟨new, hrecord⟩
      · have hobeys := ScriptedRemote.obeys hplain ⟨none, none⟩ rfl rfl
        obtain ⟨⟨new, hrecord, -⟩, -⟩ := h.advance hobeys (.refl script) hadvances
        exact ⟨new, hrecord⟩
    obtain ⟨new, hrecord⟩ := hnext
    obtain ⟨more, hlast⟩ := ih hrecord
    rw [List.append_assoc] at hlast
    exact ⟨_, hlast⟩

/-- Steps lead from one task to another, but that one call gets an error for an answer. -/
def Stumbles (script : ScriptedRemote) (call : Call) (e : RemoteFault) (task last : Task) : Prop :=
  ∃ a conflicted later queue tally delay asked more,
    task.Walks script asked (.active (.calling a conflicted call later none) queue tally) ∧
    (Task.active (.calling a conflicted call later (some ⟨.error e, delay⟩)) queue tally).Walks
      script more last

/-- **A task that meets an error has one action fail**, and goes on with the others as if it had
not. -/
theorem Stumbles.contribution (hplain : script.IsPlain) {call : Call} {e : RemoteFault}
    {whole : List Action} (h : Stumbles script call e (.waiting whole) last)
    (hended : last.isEnded = true) :
    ∃ before a after, whole = before ++ a :: after ∧ a.Issues call ∧ script.discards a = false ∧
      last.contribution = .ofFindings
        (before.map script.finding ++ script.failing a :: after.map script.finding) := by
  obtain ⟨a, conflicted, later, queue, tally, delay, asked, more, hbefore, hafter⟩ := h
  obtain ⟨found, hrecord⟩ := Records.waiting.walks hplain.nextFailure hbefore
  rw [List.nil_append] at hrecord
  cases hrecord with
  | @calling _ _ _ conflict made _ _ _ hposition hunderway _ =>
    obtain ⟨op, hop, hcalls⟩ := hunderway.operation
    have hcall : call ∈ op.calls := by
      rw [hcalls]
      exact List.mem_append_right made List.mem_cons_self
    have hconflict := ScriptedRemote.conflict_eq hunderway.finds
    refine ⟨found.map (·.action), a, queue, hposition.split,
      (Operation.issues_of_mem_calls hop hcall).1, ?_, ?_⟩
    · have hkept := hunderway.prevails.not_discarded
      rwa [hconflict, Option.any_map] at hkept
    · -- The action is noted as failed, and the rest of the queue is gone through.
      have hnoted : (Task.active (.calling a conflict.isSome call later (some ⟨.error e, delay⟩))
          queue ((Report.ofFindings found).begun conflict)).goOn? script =
            some ([], .active .between queue
              (.ofFindings (found ++ [⟨a, conflict, .failed⟩]))) := by
        rw [Report.ofFindings_failed]
        rfl
      have hwalk := Walks.silent hnoted (walks_between hplain queue _)
      obtain ⟨-, rfl⟩ := hafter.unique hwalk hended rfl
      unfold contribution ScriptedRemote.failing
      rw [← ScriptedRemote.ofFindings_finding, ← Report.ofFindings_append, ← hconflict,
        ← ScriptedRemote.eq_findings hplain.nextFailure hposition.explained, ← List.append_cons]

end Task

/-! ## Schedules -/

namespace Run

variable {limits : Limits} {s s' : Run × Shared ScriptedRemote} {reason : String}

/-- **One task meets the failure, with the first call of the schedule.** The others make their own
walks, and so does that task before and after. -/
theorem struck_of_follow? (hpending : script.nextFailure = some reason)
    (hcalm : script.breakdownTopics = []) (hs : script.Logged s.2.remote)
    (hdelivery : limits.delivery = none) (hlookup : limits.lookup = none) {moves : List Move}
    (h : follow? ScriptedRemote.remote limits moves s = some s') {first : Call × Answer Unit}
    {rest : List (Call × Answer Unit)}
    (hfirst : answered ScriptedRemote.remote limits moves s = first :: rest) :
    first.2 = .error (.unavailable reason) ∧
      (∀ e ∈ rest, e.2 = script.cleared.callAnswer e.1) ∧ script.cleared.Logged s'.2.remote ∧
      ∃ k < s.1.tasks.length, ∀ i task, s.1.tasks[i]? = some task →
        ∃ last, s'.1.tasks[i]? = some last ∧
          (i = k → task.Stumbles script.cleared first.1 (.unavailable reason) last) ∧
          (i ≠ k → ∃ asked, task.Walks script.cleared asked last) := by
  obtain ⟨early, move, late, mid, next, hearly, hnone, hmove, hanswer, hlate, hrest⟩ :=
    exists_first_call h hfirst
  obtain ⟨hfollow, hlogged⟩ := follow?_cleared hearly hnone
  obtain ⟨k, a, conflicted, later, queue, tally, rfl, hcalling, hreply⟩ := of_answer? hanswer
  obtain ⟨hstruck, hcleared⟩ := (hs.trans hlogged).first_call hpending hcalm first.1
  obtain ⟨task, stride, remote, htask, hstep, rfl⟩ := step?_advance.mp hmove
  cases hcalling.symm.trans htask
  cases Task.Advances.of_advance? hstep
  obtain ⟨hlast, hlater⟩ := answered_of_follow? rfl hcleared hdelivery hlookup hlate
  refine ⟨?_, fun e he => hlater e (hrest ▸ he), hlast, k, ?_, fun i task hi => ?_⟩
  · rw [hreply, hstruck]
  · rw [← length_tasks hearly]
    exact (List.getElem?_eq_some_iff.mp hcalling).1
  · obtain ⟨between, hbetween, hbefore⟩ :=
      walks_of_follow? rfl hs.cleared hdelivery hlookup hfollow hi
    by_cases hik : i = k
    · subst hik
      cases hcalling.symm.trans hbetween
      have hput := List.getElem?_set_self (a := Task.active (.calling a conflicted first.1 later
        (some (ScriptedRemote.remote.call mid.2.remote first.1).1)) queue tally)
        (List.getElem?_eq_some_iff.mp hcalling).1
      obtain ⟨last, hend, hafter⟩ := walks_of_follow? rfl hcleared hdelivery hlookup hlate hput
      rw [hstruck] at hafter
      exact ⟨last, hend, fun _ => ⟨_, _, _, _, _, _, _, _, hbefore, hafter⟩,
        fun hne => absurd rfl hne⟩
    · have hkept := (List.getElem?_set_ne (a := Task.active (.calling a conflicted first.1 later
        (some (ScriptedRemote.remote.call mid.2.remote first.1).1)) queue tally)
        (Ne.symm hik)).trans hbetween
      obtain ⟨last, hend, hafter⟩ := walks_of_follow? rfl hcleared hdelivery hlookup hlate hkept
      exact ⟨last, hend, fun heq => absurd heq hik, fun _ => ⟨_, hbefore.trans hafter⟩⟩

end Run

/-! ## Reports -/

/-- Whether an action fails. -/
def ScriptedRemote.fails (script : ScriptedRemote) (a : Action) : Bool :=
  !script.carriesOut a && !script.discards a

/-- The report about a queue `before ++ a :: after` of which the action `a` failed of something that
is not in the script, and the report without that. -/
structure Report.FailedOne (script : ScriptedRemote) (before : List Action) (a : Action)
    (after : List Action) (report spared : Report) : Prop where
  conflicts : report.conflicts = spared.conflicts
  processed : report.processed = spared.processed
  synced : report.synced = before.filter script.carriesOut ++ after.filter script.carriesOut
  failed : report.failed = before.filter script.fails ++ a :: after.filter script.fails
  /-- The action would have been carried out, or it would have failed anyway. -/
  otherwise :
    spared.synced = before.filter script.carriesOut ++ a :: after.filter script.carriesOut ∧
        spared.failed = before.filter script.fails ++ after.filter script.fails ∨
      spared.synced = report.synced ∧ spared.failed = report.failed

/-- One action that fails changes the expected report at its own place only. -/
theorem Report.failedOne (before after : List Action)
    (ha : script.discards a = false) :
    (ofFindings
      (before.map script.finding ++ script.failing a :: after.map script.finding)).FailedOne
        script before a after (script.expected (before ++ a :: after)) := by
  have hreport : ofFindings
      (before.map script.finding ++ script.failing a :: after.map script.finding) =
        (script.expected before).append
          ((ofFindings [script.failing a]).append (script.expected after)) := by
    rw [← ScriptedRemote.ofFindings_finding, ← ScriptedRemote.ofFindings_finding,
      ← ofFindings_append, ← ofFindings_append]
    rfl
  have hfailed : ∀ queue, (script.expected queue).failed = queue.filter script.fails :=
    fun _ => rfl
  have hsynced : ∀ queue, (script.expected queue).synced = queue.filter script.carriesOut :=
    fun _ => rfl
  rw [hreport]
  refine ⟨?_, ?_, ?_, ?_, ?_⟩
  · cases hconflict : script.conflictOf? a <;>
      simp [append, ScriptedRemote.expected, ofFindings, ScriptedRemote.failing, hconflict]
  · simp only [append, ScriptedRemote.expected, ofFindings, List.length_append, List.length_cons,
      List.length_nil, UInt64.ofNat_add]
    rw [UInt64.add_comm (UInt64.ofNat after.length)]
    rfl
  · simp [append, hsynced, ofFindings, ScriptedRemote.failing]
  · simp [append, hfailed, ofFindings, ScriptedRemote.failing]
  · have hfails : script.fails a = !script.carriesOut a := by
      unfold ScriptedRemote.fails
      rw [ha, Bool.not_false, Bool.and_true]
    rw [hsynced, hfailed]
    cases hout : script.carriesOut a with
    | true => simp [hfails, hout]
    | false => simp [append, hsynced, hfailed, ofFindings, ScriptedRemote.failing, hfails, hout]

/-- What is made of the actions of all queues, but for one of them, is made of the lined-up queue,
but for that action. -/
theorem TopicQueue.queued_split {queues : List TopicQueue} {k : Nat} (hk : k < queues.length)
    {before after : List Action} (h : queues[k].actions = before ++ a :: after) {β : Type}
    (f : Action → β) (b : β) :
    ∃ before' after', queued queues = before' ++ a :: after' ∧
      ((queues.map fun q => q.actions.map f).set k (before.map f ++ b :: after.map f)).flatten =
        before'.map f ++ b :: after'.map f := by
  refine ⟨queued (queues.take k) ++ before, after ++ queued (queues.drop (k + 1)), ?_, ?_⟩
  · calc
      queued queues = queued (queues.take k ++ queues[k] :: queues.drop (k + 1)) := by
        rw [List.getElem_cons_drop, List.take_append_drop]
      _ = queued (queues.take k) ++ (queues[k].actions ++ queued (queues.drop (k + 1))) :=
        List.flatMap_append
      _ = _ := by
        rw [h]
        simp only [List.append_assoc, List.cons_append]
  · rw [List.set_eq_take_append_cons_drop, if_pos (by rwa [List.length_map])]
    simp [queued, List.flatMap_def, List.map_flatten, Function.comp_def]

/-- If all tasks make their walks to the end but one that meets an error, then they report what is
to be expected of their queues, but that this one has an action that failed. -/
theorem Run.contributions_struck (hplain : script.IsPlain) {r : Run} (hdone : r.isDone = true)
    {queues : List TopicQueue} (hlength : r.tasks.length = queues.length) {k : Nat}
    (hk : k < queues.length) {call : Call} {e : RemoteFault}
    (htasks : ∀ i task, queues[i]?.map (fun q => Task.waiting q.actions) = some task →
      ∃ last, r.tasks[i]? = some last ∧ (i = k → task.Stumbles script call e last) ∧
        (i ≠ k → ∃ asked, task.Walks script asked last)) :
    ∃ before a after, queues[k].actions = before ++ a :: after ∧ a.Issues call ∧
      script.discards a = false ∧
      r.tasks.map Task.contribution = ((queues.map fun q => q.actions.map script.finding).set k
        (before.map script.finding ++ script.failing a :: after.map script.finding)).map
          Report.ofFindings := by
  have hended : ∀ (i : Nat) (last : Task), r.tasks[i]? = some last → last.isEnded = true :=
    fun i last hlast => List.all_eq_true.mp hdone last (List.mem_of_getElem? hlast)
  obtain ⟨struck, hstruck, hstumbles, -⟩ :=
    htasks k (.waiting queues[k].actions) (by rw [List.getElem?_eq_getElem hk]; rfl)
  obtain ⟨before, a, after, hqueue, hissues, hdiscards, hfound⟩ :=
    (hstumbles rfl).contribution hplain (hended k struck hstruck)
  refine ⟨before, a, after, hqueue, hissues, hdiscards, List.ext_getElem? fun i => ?_⟩
  rw [List.getElem?_map, List.getElem?_map, List.getElem?_set, List.getElem?_map]
  by_cases hi : i = k
  · subst hi
    rw [if_pos rfl, List.length_map, if_pos hk, hstruck, Option.map_some, hfound]
    rfl
  · rw [if_neg (Ne.symm hi)]
    cases hq : queues[i]? with
    | none =>
      rw [List.getElem?_eq_none_iff.mpr (hlength ▸ List.getElem?_eq_none_iff.mp hq)]
      rfl
    | some q =>
      obtain ⟨last, hlast, -, hwalks⟩ := htasks i (.waiting q.actions) (by rw [hq]; rfl)
      obtain ⟨asked, hwalk⟩ := hwalks hi
      obtain ⟨-, rfl⟩ :=
        hwalk.unique (Task.walks_queue hplain q.actions) (hended i last hlast) rfl
      rw [hlast, Option.map_some, Option.map_some, Option.map_some,
        ScriptedRemote.ofFindings_finding]
      rfl

/-! ## Syncs -/

namespace Syncer

/-- The calls that a sync makes in the course of a schedule, and their answers. -/
def answered (s : Syncer ScriptedRemote) (config : Config) (actions : List Action)
    (moves : List Move) : List (Call × Answer Unit) :=
  Run.answered ScriptedRemote.remote config.limits moves
    (Run.ofActions config actions, ⟨.ofBatch actions.length, s.shared.remote⟩)

variable {s : Syncer ScriptedRemote} {config : Config} {actions : List Action}
  {moves : List Move} {run : Run} {shared : Shared ScriptedRemote} {reason : String}

/-- The log has the calls that are answered. -/
theorem Follows.log_answered
    (h : s.Follows ScriptedRemote.remote config actions moves run shared) :
    shared.remote.calls =
      s.shared.remote.calls ++ (s.answered config actions moves).map Prod.fst := by
  have hlog := (Run.log_of_follow? h.moved).1
  rwa [← Run.map_fst_answered] at hlog

theorem answered_unlimited (s : Syncer ScriptedRemote) (config : Config) (actions : List Action)
    (hmoves : NoneExpires moves) :
    s.answered config.unlimited actions moves = s.answered config actions moves :=
  (Run.answered_limits config.unlimited.limits hmoves _).symm

/-- Of a sync in which a failure was set and a call is made, the report is about the queue lined up
by topic, and one action of it failed. -/
theorem Serves.report_struck (h : s.Serves ScriptedRemote.remote config actions moves run shared)
    (hdelivery : config.deliveryLimit = none) (hlookup : config.lookupLimit = none)
    (hpending : s.shared.remote.nextFailure = some reason)
    (hcalm : s.shared.remote.breakdownTopics = []) {first : Call × Answer Unit}
    {rest : List (Call × Answer Unit)} (hfirst : s.answered config actions moves = first :: rest) :
    ∃ before a after, TopicQueue.linedUp config.fallbackTopic actions = before ++ a :: after ∧
      a.Issues first.1 ∧ s.shared.remote.cleared.discards a = false ∧
      run.report = .ofFindings (before.map s.shared.remote.cleared.finding ++
        s.shared.remote.cleared.failing a :: after.map s.shared.remote.cleared.finding) := by
  have hlimits := Config.limits_eq_none hdelivery hlookup
  have hplain := ScriptedRemote.isPlain_cleared hcalm
  obtain ⟨-, -, -, k, hk, htasks⟩ := Run.struck_of_follow? hpending hcalm (.refl _) hlimits.1
    hlimits.2 h.moved hfirst
  have hwaiting : ∀ i, (Run.ofActions config actions).tasks[i]? =
      (TopicQueue.ofActions config.fallbackTopic actions)[i]?.map
        fun (q : TopicQueue) => Task.waiting q.actions :=
    fun i => List.getElem?_map
  simp only [Run.ofActions, List.length_map] at hk
  simp only [hwaiting] at htasks
  obtain ⟨before, a, after, hqueue, hissues, hdiscards, hcontributions⟩ :=
    Run.contributions_struck hplain h.done h.length_tasks hk htasks
  obtain ⟨before', after', hlinedUp, hflatten⟩ := TopicQueue.queued_split hk hqueue
    s.shared.remote.cleared.finding (s.shared.remote.cleared.failing a)
  refine ⟨before', a, after', hlinedUp, hissues, hdiscards, ?_⟩
  rw [Run.report_of_contributions hcontributions, hflatten]

/-- **A failure that is set for the next call strikes once.** Let a failure be set, and let nothing
break down and no answer be cut off. In every schedule in which a call is made, the first call gets
the failure for an answer, all others are answered as if it had not been set, and none is set any
more; and the sync can be taken to its end without a cut. There the report is that of any sync of
the same batch without the failure, but that one action has failed: it is one that makes the first
call, and it was carried out in the other sync or failed there too. -/
theorem Follows.struck (h : s.Follows ScriptedRemote.remote config actions moves run shared)
    (hpending : s.shared.remote.nextFailure = some reason)
    (hcalm : s.shared.remote.breakdownTopics = []) (hmoves : NoneExpires moves)
    (hcalled : shared.remote.calls ≠ s.shared.remote.calls) :
    ∃ first rest,
      s.answered config actions moves = (first, .error (.unavailable reason)) :: rest ∧
      (∀ e ∈ rest, e.2 = s.shared.remote.cleared.callAnswer e.1 ∧
        e.2 ≠ .error (.unavailable reason)) ∧
      shared.remote.calls = s.shared.remote.calls ++ first :: rest.map Prod.fst ∧
      shared.remote.nextFailure = none ∧
      (∃ more run' shared', NoneExpires (moves ++ more) ∧
        s.Serves ScriptedRemote.remote config actions (moves ++ more) run' shared') ∧
      (run.isDone = true →
        ∀ (s' : Syncer ScriptedRemote) moves' run' shared',
          s'.shared.remote = s.shared.remote.cleared →
          s'.Serves ScriptedRemote.remote config actions moves' run' shared' →
          NoneExpires moves' →
            ∃ before a after,
              TopicQueue.linedUp config.fallbackTopic actions = before ++ a :: after ∧
              a.Issues first ∧
              run.report.FailedOne s.shared.remote.cleared before a after run'.report) := by
  have hunlimited := (follows_unlimited_iff hmoves).mpr h
  have hlog := h.log_answered
  -- A call was made, so the first one is there.
  cases hfirst : s.answered config actions moves with
  | nil =>
    rw [hfirst, List.map_nil, List.append_nil] at hlog
    exact absurd hlog hcalled
  | cons first rest =>
    rw [hfirst] at hlog
    rw [← answered_unlimited s config actions hmoves] at hfirst
    obtain ⟨call, answer⟩ := first
    obtain ⟨hanswer, hrest, hlogged, -⟩ :=
      Run.struck_of_follow? hpending hcalm (.refl _) rfl rfl hunlimited.moved hfirst
    cases hanswer
    refine ⟨call, rest, rfl, fun e he => ⟨hrest e he, ?_⟩, hlog, ?_, ?_, ?_⟩
    · rw [hrest e he]
      exact ScriptedRemote.callAnswer_ne_unavailable rfl e.1 reason
    · obtain ⟨calls, lookups, hremote⟩ := hlogged
      rw [hremote]
      rfl
    · obtain ⟨more, run', shared', hserves⟩ := hunlimited.serves
      exact ⟨more, run', shared', hserves.of_unlimited⟩
    · intro hdone s' moves' run' shared' hcleared hspared hmoves'
      have hserves : s.Serves ScriptedRemote.remote config.unlimited actions moves run shared :=
        ⟨hunlimited, hdone⟩
      obtain ⟨before, a, after, hlinedUp, hissues, hdiscards, hreport⟩ :=
        hserves.report_struck rfl rfl hpending hcalm hfirst
      have hplain := ScriptedRemote.isPlain_cleared hcalm
      have hspared' := (hspared.unlimited hmoves').report_eq (hcleared ▸ hplain) rfl rfl
      refine ⟨before, a, after, hlinedUp, hissues, ?_⟩
      rw [hreport, hspared', hcleared, hlinedUp]
      exact Report.failedOne before after hdiscards

/-- The next call will fail. -/
def pendingScript : ScriptedRemote := { ScriptedRemote.empty with nextFailure := some "down" }

/-- Both tasks are about to make a call, and the like is faster. -/
def struckMoves : List Move :=
  [.start 0, .start 1, .advance 0, .advance 1, .advance 1] ++ List.replicate 5 (.advance 0) ++
    List.replicate 2 (.advance 1)

/-- The like has failed. -/
def struckRun : Run :=
  ⟨2, [.finished ⟨[sampleJoin], [], [], 1⟩, .finished ⟨[], [], [sampleLike], 1⟩], none⟩

/-- The progress and the log. -/
def struckShared : Shared ScriptedRemote where
  progress := ⟨2, 2, 1, 1, 0⟩
  remote := { ScriptedRemote.empty with calls := [.likePost "p1", .joinTopic "t", .subscribe "t"] }

/-- The like has failed where it would have been carried out, and the join does not notice. -/
theorem struck_sample :
    (start pendingScript).Serves ScriptedRemote.remote .default [sampleJoin, sampleLike] struckMoves
        struckRun struckShared ∧
      (start .empty).Serves ScriptedRemote.remote .default [sampleJoin, sampleLike] joinMoves
        joinRun joinShared ∧
      pendingScript.nextFailure = some "down" ∧ pendingScript.breakdownTopics = [] ∧
      NoneExpires struckMoves ∧ NoneExpires joinMoves ∧
      struckShared.remote.calls ≠ pendingScript.calls ∧
      ∃ first rest,
        (start pendingScript).answered .default [sampleJoin, sampleLike] struckMoves =
          (first, .error (.unavailable "down")) :: rest ∧
        ∃ before a after,
          TopicQueue.linedUp TopicQueue.commonTopic [sampleJoin, sampleLike] =
            before ++ a :: after ∧
          a.Issues first ∧
          struckRun.report.FailedOne pendingScript.cleared before a after joinRun.report := by
  have hserves : (start pendingScript).Serves ScriptedRemote.remote .default
      [sampleJoin, sampleLike] struckMoves struckRun struckShared :=
    ⟨⟨rfl, _, rfl, by decide +kernel⟩, rfl⟩
  have hspared : (start .empty).Serves ScriptedRemote.remote .default [sampleJoin, sampleLike]
      joinMoves joinRun joinShared := ⟨⟨rfl, _, rfl, by decide +kernel⟩, rfl⟩
  have hmoves : NoneExpires struckMoves := Run.noneExpires_of_follow? rfl rfl hserves.moved
  have hmoves' : NoneExpires joinMoves := Run.noneExpires_of_follow? rfl rfl hspared.moved
  have hcalled : struckShared.remote.calls ≠ pendingScript.calls := by decide
  obtain ⟨first, rest, hanswered, -, -, -, -, hcompared⟩ :=
    hserves.toFollows.struck rfl rfl hmoves hcalled
  exact ⟨hserves, hspared, rfl, rfl, hmoves, hmoves', hcalled, first, rest, hanswered,
    hcompared rfl _ _ _ _ rfl hspared hmoves'⟩

end Syncer
end Outbox
