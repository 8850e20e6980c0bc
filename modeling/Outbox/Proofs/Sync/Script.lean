import Outbox.Proofs.Sync.Conservation

/-!
# Syncs against a script

What a script answers about one action does not depend on what it was asked before, as long as no
failure is set for the next call. So the findings about an action are known beforehand
(`ScriptedRemote.finding`), and the report of a sync is a plain function of the lined-up queues
(`ScriptedRemote.expected`): the order in which the tasks go on and end, the number of topics at a
time and the delays of the answers have no part in it.

* `ScriptedRemote.obeys`: the script gives the answers of its tables, and goes on to do so.
* `ScriptedRemote.eq_finding`: these answers allow one finding about each action.
* `Syncer.sync_of_isPlain`: every schedule ends, and with the expected report.
-/

namespace Outbox

theorem Config.limits_eq_none {config : Config} (hdelivery : config.deliveryLimit = none)
    (hlookup : config.lookupLimit = none) :
    config.limits.delivery = none ∧ config.limits.lookup = none := by
  simp [Config.limits, hdelivery, hlookup]

namespace ScriptedRemote

variable {script : ScriptedRemote}

/-! ## What is to be expected of a script -/

/-- The conflict of an action by the table of times, not settled. -/
def conflictOf? (script : ScriptedRemote) (a : Action) : Option Conflict :=
  Conflict.ofModification? a
    (a.lookupTarget?.bind fun entity => (script.lookupAnswer entity).time?)

/-- Whether the conflict of an action discards it. -/
def discards (script : ScriptedRemote) (a : Action) : Bool :=
  (script.conflictOf? a).any fun c => c.settle.discards

/-- Whether an action has an operation of which no call is refused. -/
def accepts (script : ScriptedRemote) (a : Action) : Bool :=
  match Operation.ofAction a with
  | .ok op => op.calls.all fun call => (script.refusal? call).isNone
  | .error _ => false

/-- Whether an action is carried out. -/
def carriesOut (script : ScriptedRemote) (a : Action) : Bool :=
  !script.discards a && script.accepts a

theorem discards_of_carriesOut {a : Action} (h : script.carriesOut a = true) :
    script.discards a = false :=
  (Bool.not_eq_true' _).mp (Bool.and_eq_true_iff.mp h).1

/-- The report of a sync of a queue, action by action. -/
def expected (script : ScriptedRemote) (queue : List Action) : Report where
  synced := queue.filter script.carriesOut
  conflicts := (queue.filterMap script.conflictOf?).map Conflict.settle
  failed := queue.filter fun a => !script.carriesOut a && !script.discards a
  processed := .ofNat queue.length

/-! ## Answers of a script -/

/-- Nothing but the tables decides about the next answers. -/
structure IsPlain (script : ScriptedRemote) : Prop where
  nextFailure : script.nextFailure = none
  breakdownTopics : script.breakdownTopics = []

/-- The script after some calls and look-ups. -/
def Logged (script s : ScriptedRemote) : Prop :=
  ∃ calls lookups, s = { script with calls, lookups }

/-- The answers of the tables. -/
def answers (script : ScriptedRemote) : Answers where
  lookup entity answer := answer = script.lookupAnswer entity
  call call answer := answer = script.callAnswer call

/-- **A script goes on to answer from its tables.** -/
theorem obeys (h : script.nextFailure = none) (limits : Limits) (hdelivery : limits.delivery = none)
    (hlookup : limits.lookup = none) : remote.Obeys limits script.Logged script.answers where
  lookup s entity hs := by
    obtain ⟨calls, lookups, rfl⟩ := hs
    exact ⟨⟨calls, lookups ++ [entity], rfl⟩, rfl⟩
  call s call hs := by
    obtain ⟨calls, lookups, rfl⟩ := hs
    refine ⟨⟨calls ++ [call], lookups, ?_⟩, rfl⟩
    unfold remote
    simp only
    rw [h]
  lookupLimit hlimit := by
    rw [hlookup] at hlimit
    cases hlimit
  deliveryLimit hlimit := by
    rw [hdelivery] at hlimit
    cases hlimit

/-- An error is a refusal. -/
theorem refusal?_of_error (h : script.nextFailure = none) {call : Call} {e : RemoteFault}
    (hanswer : script.callAnswer call = .error e) : script.refusal? call = some e := by
  unfold callAnswer at hanswer
  rw [h] at hanswer
  split at hanswer
  · cases hanswer
  · cases hrefusal : script.refusal? call with
    | some e =>
      simp only [hrefusal] at hanswer
      cases hanswer
      rfl
    | none =>
      simp only [hrefusal] at hanswer
      cases hanswer

/-- What is accepted is not refused. -/
theorem refusal?_of_value (h : script.nextFailure = none) {call : Call}
    (hanswer : script.callAnswer call = .value ()) : script.refusal? call = none := by
  unfold callAnswer at hanswer
  rw [h] at hanswer
  split at hanswer
  · cases hanswer
  · cases hrefusal : script.refusal? call with
    | some e =>
      simp only [hrefusal] at hanswer
      cases hanswer
    | none => rfl

/-- Where no topic is set to, no call makes its caller break down. -/
theorem breaksDown_eq_false (h : script.breakdownTopics = []) (call : Call) :
    script.breaksDown call = false := by
  unfold breaksDown
  rw [h]
  cases call.topic? <;> rfl

/-- Scripts refuse a call for the same reason if their tables agree about what it names. -/
theorem refusal?_congr {script' : ScriptedRemote} {call : Call}
    (htopics : ∀ t, call.topic? = some t → (t ∈ script.refusedTopics ↔ t ∈ script'.refusedTopics))
    (hsubscriptions : ∀ t, call.topic? = some t →
      (t ∈ script.refusedSubscriptions ↔ t ∈ script'.refusedSubscriptions))
    (hposts : ∀ p, p ∈ script.refusedPosts ↔ p ∈ script'.refusedPosts) :
    script.refusal? call = script'.refusal? call := by
  have hcontains : ∀ {l l' : List String} {t : String}, (t ∈ l ↔ t ∈ l') →
      l.contains t = l'.contains t := by
    intro l l' t hiff
    rw [Bool.eq_iff_iff, List.contains_iff_mem, List.contains_iff_mem, hiff]
  unfold refusal? refusal?.refusedTopic
  cases call with
  | createPost content topicId replyTo quotedPost => simp only [hcontains (htopics topicId rfl)]
  | joinTopic topicId => simp only [hcontains (htopics topicId rfl)]
  | leaveTopic topicId => simp only [hcontains (htopics topicId rfl)]
  | subscribe topicId =>
    simp only [hcontains (htopics topicId rfl), hcontains (hsubscriptions topicId rfl)]
  | likePost postId => simp only [hcontains (hposts postId)]

theorem callAnswer_of_isPlain (h : script.IsPlain) (call : Call) :
    script.callAnswer call =
      match script.refusal? call with
      | some e => .error e
      | none => .value () := by
  unfold callAnswer
  cases script.refusal? call <;>
    simp only [breaksDown_eq_false h.breakdownTopics, h.nextFailure, Bool.false_eq_true,
      ↓reduceIte]

theorem lookupAnswer_ne_breakdown (script : ScriptedRemote) (entity : Entity) :
    script.lookupAnswer entity ≠ .breakdown := by
  unfold lookupAnswer
  split
  · exact nofun
  · exact nofun

/-- Nobody breaks down at an answer of the tables. -/
theorem not_breaksDown (h : script.IsPlain) (a : Action) : ¬ script.answers.BreaksDown a := by
  rintro (⟨_, hanswer⟩ | ⟨_, hanswer⟩)
  · exact lookupAnswer_ne_breakdown script _ hanswer.symm
  · unfold answers at hanswer
    simp only [callAnswer_of_isPlain h] at hanswer
    split at hanswer <;> cases hanswer

/-! ## Findings about an action -/

/-- What becomes of an action. -/
def fateOf (script : ScriptedRemote) (a : Action) : Fate :=
  if script.discards a then .lost else if script.accepts a then .synced else .failed

/-- What a task finds out about an action. -/
def finding (script : ScriptedRemote) (a : Action) : Finding :=
  ⟨a, (script.conflictOf? a).map Conflict.settle, script.fateOf a⟩

/-- The tables give one conflict at most. -/
theorem conflict_eq {a : Action} {conflict : Option Conflict}
    (h : script.answers.Finds a conflict) :
    conflict = (script.conflictOf? a).map Conflict.settle := by
  cases h with
  | unasked htarget =>
    unfold conflictOf?
    rw [htarget]
    rfl
  | asked htarget hanswer _ =>
    unfold conflictOf?
    rw [hanswer, htarget]
    rfl

/-- The tables leave one fate for an action with a conflict or none. -/
theorem fate_eq (h : script.nextFailure = none) {a : Action} {conflict : Option Conflict}
    {fate : Fate} (hends : script.answers.Ends a conflict fate) :
    fate = if conflict.any Conflict.discards then .lost
      else if script.accepts a then .synced else .failed := by
  have hlost := hends.lost_iff
  cases hends with
  | lost _ => rw [if_pos (hlost.mp rfl)]
  | unfit hprev hop =>
    have haccepts : script.accepts a = false := by
      unfold accepts
      rw [hop]
    rw [hprev.not_discarded, haccepts]
    rfl
  | @refused _ op call e hprev hop hcall hanswer =>
    have haccepts : script.accepts a = false := by
      unfold accepts
      rw [hop]
      refine List.all_eq_false.mpr ⟨call, hcall, ?_⟩
      rw [refusal?_of_error h hanswer.symm]
      exact Bool.false_ne_true
    rw [hprev.not_discarded, haccepts]
    rfl
  | @carriedOut _ op hprev hop hanswers =>
    have haccepts : script.accepts a = true := by
      unfold accepts
      rw [hop]
      refine List.all_eq_true.mpr fun call hcall => ?_
      rw [refusal?_of_value h (hanswers call hcall).symm]
      rfl
    rw [hprev.not_discarded, haccepts]
    rfl

/-- **The tables allow one finding about each action.** -/
theorem eq_finding (h : script.nextFailure = none) {f : Finding} (hf : script.answers.Explains f) :
    f = script.finding f.action := by
  have hconflict := conflict_eq hf.finds
  have hfate := fate_eq h hf.ends
  rw [hconflict, Option.any_map] at hfate
  calc
    f = ⟨f.action, f.conflict, f.fate⟩ := rfl
    _ = script.finding f.action := by
      rw [hconflict, hfate]
      rfl

theorem eq_findings (h : script.nextFailure = none) {found : List Finding}
    (hfound : ∀ f ∈ found, script.answers.Explains f) :
    found = (found.map (·.action)).map script.finding := by
  rw [List.map_map]
  conv_lhs => rw [← List.map_id found]
  exact List.map_congr_left fun f hf => eq_finding h (hfound f hf)

/-! ## The expected report -/

/-- The actions that lose are those with a conflict that discards them. -/
theorem discarded_expected (script : ScriptedRemote) (queue : List Action) :
    (script.expected queue).discarded = queue.filter script.discards := by
  unfold Report.discarded expected
  simp only
  induction queue with
  | nil => rfl
  | cons a queue ih =>
    cases hconflict : script.conflictOf? a with
    | none =>
      have hkept : script.discards a = false := by
        unfold discards
        rw [hconflict]
        rfl
      rw [List.filterMap_cons_none hconflict, ih, List.filter_cons_of_neg (by simp [hkept])]
    | some c =>
      have hlocal : c.localAction = a := Conflict.localAction_of_ofModification? hconflict
      have hdiscards : script.discards a = c.settle.discards := by
        unfold discards
        rw [hconflict]
        rfl
      rw [List.filterMap_cons_some hconflict, List.map_cons, List.filter_cons, List.filter_cons,
        hdiscards]
      split
      · rw [List.map_cons, ih]
        exact congrArg (· :: _) hlocal
      · exact ih

/-- The findings about a queue add up to the expected report. -/
theorem ofFindings_finding (script : ScriptedRemote) (queue : List Action) :
    .ofFindings (queue.map script.finding) = script.expected queue := by
  have hfilter : ∀ (fate : Fate) (p : Action → Bool), (∀ a, decide (script.fateOf a = fate) = p a) →
      ((queue.map script.finding).filter (·.fate = fate)).map (·.action) = queue.filter p := by
    intro fate p hp
    have hfate : (fun f : Finding => decide (f.fate = fate)) ∘ script.finding = p := funext hp
    rw [List.filter_map, List.map_map, hfate]
    exact List.map_id _
  have hsynced : ∀ a, decide (script.fateOf a = .synced) = script.carriesOut a := by
    intro a
    unfold fateOf carriesOut
    cases script.discards a <;> cases script.accepts a <;> rfl
  have hfailed : ∀ a, decide (script.fateOf a = .failed) =
      (!script.carriesOut a && !script.discards a) := by
    intro a
    unfold fateOf carriesOut
    cases script.discards a <;> cases script.accepts a <;> rfl
  unfold Report.ofFindings expected
  rw [hfilter .synced script.carriesOut hsynced, hfilter .failed _ hfailed, List.filterMap_map,
    List.map_filterMap, List.length_map]
  rfl

end ScriptedRemote

namespace Syncer

variable {s : Syncer ScriptedRemote} {config : Config} {actions : List Action}

/-- A sync that is served reports what is to be expected. -/
theorem Serves.report_eq (hplain : s.shared.remote.IsPlain)
    (hdelivery : config.deliveryLimit = none) (hlookup : config.lookupLimit = none)
    {moves : List Move} {run : Run} {shared : Shared ScriptedRemote}
    (h : s.Serves ScriptedRemote.remote config actions moves run shared) :
    run.report = s.shared.remote.expected
      (TopicQueue.linedUp config.fallbackTopic actions) := by
  have hobeys : ScriptedRemote.remote.Obeys config.limits s.shared.remote.Logged
      s.shared.remote.answers := by
    obtain ⟨hdelivery, hlookup⟩ := Config.limits_eq_none hdelivery hlookup
    exact ScriptedRemote.obeys hplain.nextFailure config.limits hdelivery hlookup
  have hgood : s.shared.remote.Logged s.shared.remote := ⟨_, _, rfl⟩
  have hwhole := Run.whole_of_follow? hobeys h.moved hgood (ScriptedRemote.not_breaksDown hplain)
  obtain ⟨found, hreport, hexplained, hactions⟩ :=
    Run.report_of_follow? hobeys h.moved hgood h.done hwhole
  rw [hreport, ← ScriptedRemote.ofFindings_finding, ← hactions,
    ← ScriptedRemote.eq_findings hplain.nextFailure hexplained]

/-- **A sync against a script has one report**, whatever the schedule, the number of topics at a
time and the delays: the sync is admitted, each of its schedules leads on to an end, after no more
moves than there was work, and every end has the report that is to be expected of the queue lined
up by topic. So has a sync in virtual time that returns. -/
theorem sync_of_isPlain (hidle : s.flight = .idle) (hbound : config.topicsAtATime ≤ mostPlaces)
    (hplain : s.shared.remote.IsPlain) (hdelivery : config.deliveryLimit = none)
    (hlookup : config.lookupLimit = none) :
    (s.request config actions).1 = .admitted ∧
      (∀ moves run shared, s.Follows ScriptedRemote.remote config actions moves run shared →
        moves.length ≤ (Run.ofActions config actions).work ∧
          ∃ more run' shared', s.Serves ScriptedRemote.remote config actions (moves ++ more)
            run' shared') ∧
      (∀ moves run shared, s.Serves ScriptedRemote.remote config actions moves run shared →
        run.report = s.shared.remote.expected
          (TopicQueue.linedUp config.fallbackTopic actions)) ∧
      ∀ horizon turn r,
        (s.sync ScriptedRemote.remote config horizon actions turn).result = .report r →
          r = s.shared.remote.expected (TopicQueue.linedUp config.fallbackTopic actions) := by
  refine ⟨?_, fun moves run shared h => ⟨?_, h.serves⟩, fun moves run shared h => ?_, ?_⟩
  · rw [request_of_idle config actions hidle hbound]
  · have hlength := Run.follow?_length h.moved
    simp only at hlength
    omega
  · exact h.report_eq hplain hdelivery hlookup
  · intro horizon turn r hr
    obtain ⟨moves, run, shared, hserves, rfl⟩ := report_of_sync hr
    exact hserves.report_eq hplain hdelivery hlookup

/-- Where the topics take turns, the report is in the order of the lined-up queue still. -/
theorem sample_expected :
    (start sampleScript).flight = .idle ∧ Config.default.topicsAtATime ≤ mostPlaces ∧
      sampleScript.IsPlain ∧
      sampleRun.report = sampleScript.expected
        (TopicQueue.linedUp TopicQueue.commonTopic sampleBatch) := by
  have hbound : Config.default.topicsAtATime ≤ mostPlaces := by decide
  have hplain : sampleScript.IsPlain := ⟨rfl, rfl⟩
  have hmain := @sync_of_isPlain (start sampleScript) .default sampleBatch rfl hbound hplain rfl rfl
  exact ⟨rfl, hbound, hplain, hmain.2.2.1 _ _ _ sample_serves⟩

end Syncer
end Outbox
