import Outbox.Proofs.Sync.Alone
import Outbox.Proofs.Sync.Conservation

/-!
# What a sync can discard

A sync goes by what it hears about its actions. Before an action is carried out its entity is looked
up, and a time after the action makes a conflict. But the conflict is about the local action alone:
the time that was heard has no part in settling it, and the remote side counts as made at the epoch.
So an action is discarded just when a time after it is heard and it was made before the epoch, and
one that was made at or after the epoch is carried out however much later its entity was modified
(`Syncer.Heeds`).

What a task hears is gathered from the moves of a schedule, and so is what the remote system answers
to its look-ups. Nothing is assumed of the remote system, of the order of the moves, or of tasks
that break down.

* `Hearing.loses_eq`: an action loses if the conflict that is found discards it.
* `Task.Heard.advance`, `Task.Heard.expire`: a step adds what is heard with it.
* `Run.heard_of_follow?`: so does every schedule.
* `Syncer.Serves.heeds`: every sync goes by what it hears.
-/

namespace Outbox

variable {σ : Type} {remote : Remote σ} {limits : Limits}

/-! ## Hearings -/

/-- What comes of looking up the entity of an action. -/
inductive News where
  /-- There is no entity to look up. -/
  | unasked
  /-- The answer was waited for. -/
  | heard (answer : Answer (Option Timestamp))
  /-- A limit cut the answer off. -/
  | cutOff (answer : Answer (Option Timestamp))
  deriving DecidableEq, Repr

namespace News

/-- The time that was heard. -/
def time? : News → Option Timestamp
  | .unasked => none
  | .heard answer => answer.time?
  | .cutOff _ => none

/-- The answer to the look-up, whether it was waited for or not. -/
def answer? : News → Option (Answer (Option Timestamp))
  | .unasked => none
  | .heard answer => some answer
  | .cutOff answer => some answer

/-- A time that was heard is what the remote system answered. -/
theorem answer?_of_time? {news : News} {t : Timestamp} (h : news.time? = some t) :
    news.answer? = some (.value (some t)) := by
  cases news with
  | unasked => cases h
  | heard answer =>
    cases answer with
    | value time =>
      cases h
      rfl
    | error e => cases h
    | breakdown => cases h
  | cutOff answer => cases h

end News

/-- An action and what came of looking up its entity. -/
structure Hearing where
  action : Action
  news : News
  deriving DecidableEq, Repr

namespace Hearing

/-- The look-up that was made, and its answer. -/
def look? (h : Hearing) : Option (Entity × Answer (Option Timestamp)) := do
  let entity ← h.action.lookupTarget?
  let answer ← h.news.answer?
  return (entity, answer)

/-- The conflict that is found, settled. -/
def conflict? (h : Hearing) : Option Conflict :=
  (Conflict.ofModification? h.action h.news.time?).map Conflict.settle

/-- Whether an action is discarded: a time later than the action was heard, and the action was made
before the epoch. -/
def loses (h : Hearing) : Bool :=
  h.news.time?.any fun t => h.action.createdAt < t ∧ h.action.createdAt < .epoch

end Hearing

/-- A conflict of one of these actions alone: no remote action takes part in it, and it is settled
by whether the action was made before the epoch. -/
structure Conflict.Lone (actions : List Action) (c : Conflict) : Prop where
  kind : c.kind = .timestamp
  remoteAction : c.remoteAction = none
  mergedData : c.mergedData = none
  submitted : c.localAction ∈ actions
  resolution : c.resolution = some (if .epoch ≤ c.localAction.createdAt then .local else .remote)

namespace Hearing

theorem conflict?_eq_some_iff {h : Hearing} {c : Conflict} :
    h.conflict? = some c ↔ c = (Conflict.fresh h.action .timestamp).settle ∧
      ∃ t, h.news.time? = some t ∧ h.action.createdAt < t := by
  unfold conflict?
  rw [Option.map_eq_some_iff]
  constructor
  · rintro ⟨found, hfound, rfl⟩
    obtain ⟨rfl, hlater⟩ := Conflict.ofModification?_eq_some_iff.mp hfound
    exact ⟨rfl, hlater⟩
  · rintro ⟨rfl, hlater⟩
    exact ⟨_, Conflict.ofModification?_eq_some_iff.mpr ⟨rfl, hlater⟩, rfl⟩

/-- A conflict that is found is one of the action alone. -/
theorem lone {h : Hearing} {actions : List Action} (haction : h.action ∈ actions) :
    ∀ c ∈ h.conflict?, c.Lone actions := by
  intro c hc
  obtain ⟨rfl, -⟩ := conflict?_eq_some_iff.mp hc
  exact ⟨rfl, rfl, rfl, haction, rfl⟩

end Hearing

/-- The conflict of an action alone discards it if it was made before the epoch. -/
theorem Conflict.Lone.discards_iff {actions : List Action} {c : Conflict} (h : c.Lone actions) :
    c.discards = true ↔ c.localAction.createdAt < .epoch := by
  unfold Conflict.discards
  rw [h.resolution]
  by_cases hlate : Timestamp.epoch ≤ c.localAction.createdAt
  · rw [if_pos hlate]
    exact iff_of_false Bool.false_ne_true (Int.not_lt.mpr hlate)
  · rw [if_neg hlate]
    exact iff_of_true rfl (Int.not_le.mp hlate)

/-- The conflict of an action alone is settled for it unless it discards it. -/
theorem Conflict.Lone.resolution_of_not_discards {actions : List Action} {c : Conflict}
    (h : c.Lone actions) (hkept : c.discards ≠ true) : c.resolution = some .local := by
  have hlate : Timestamp.epoch ≤ c.localAction.createdAt :=
    Int.not_lt.mp (mt h.discards_iff.mpr hkept)
  rw [h.resolution, if_pos hlate]

/-- **An action loses if its conflict discards it.** -/
theorem Hearing.loses_eq (h : Hearing) : h.loses = h.conflict?.any Conflict.discards := by
  have hlone : (Conflict.fresh h.action .timestamp).settle.Lone [h.action] :=
    ⟨rfl, rfl, rfl, List.mem_singleton_self _, rfl⟩
  unfold loses conflict?
  rcases h.news.time? with _ | t
  · rfl
  · by_cases hlater : h.action.createdAt < t
    · have hearly := hlone.discards_iff
      simp only [Conflict.ofModification?, if_pos hlater, Option.any_some, Option.map_some]
      rw [Bool.eq_iff_iff, hearly, decide_eq_true_iff]
      exact and_iff_right hlater
    · simp [Conflict.ofModification?, hlater]

/-- The conflicts that were found discard the actions that lose. -/
theorem discarded_of_hearings {hearings : List Hearing} {r : Report}
    (hconflicts : r.conflicts = hearings.filterMap Hearing.conflict?) :
    r.discarded = (hearings.filter Hearing.loses).map (·.action) := by
  have hlocal : ∀ h ∈ hearings, ∀ c ∈ h.conflict?, c.localAction = h.action := by
    intro h _ c hc
    obtain ⟨rfl, -⟩ := Hearing.conflict?_eq_some_iff.mp hc
    rfl
  rw [Report.discarded_of_filterMap hconflicts hlocal]
  exact congrArg (List.map _) (List.filter_congr fun h _ => h.loses_eq.symm)

/-! ## What a task has heard -/

/-- A task has heard about the actions of its queue up to the rest, and its conflicts are those that
were found. -/
structure Noted (whole : List Action) (hearings : List Hearing) (rest : List Action)
    (tally : Report) : Prop where
  split : whole = hearings.map (·.action) ++ rest
  conflicts : tally.conflicts = hearings.filterMap Hearing.conflict?

/-- What a task with the queue `whole` has heard, and the look-ups that it has made. -/
inductive Task.Heard (whole : List Action) :
    List Hearing → List (Entity × Answer (Option Timestamp)) → Task → Prop where
  | waiting : Heard whole [] [] (.waiting whole)
  | between {hearings : List Hearing} {queue : List Action} {tally : Report} :
      Noted whole hearings queue tally →
      Heard whole hearings (hearings.filterMap Hearing.look?) (.active .between queue tally)
  | lookingUp {hearings : List Hearing} {queue : List Action} {tally : Report} {a : Action}
      {entity : Entity} {reply : Option (Reply (Option Timestamp))} :
      Noted whole hearings (a :: queue) tally → a.lookupTarget? = some entity →
      Heard whole hearings
        (hearings.filterMap Hearing.look? ++ reply.toList.map fun r => (entity, r.answer))
        (.active (.lookingUp a entity reply) queue tally)
  | calling {hearings : List Hearing} {queue : List Action} {tally : Report} {a : Action}
      {conflicted : Bool} {call : Call} {later : List Call} {reply : Option (Reply Unit)} :
      Noted whole hearings queue tally →
      Heard whole hearings (hearings.filterMap Hearing.look?)
        (.active (.calling a conflicted call later reply) queue tally)
  | finished {hearings : List Hearing} {tally : Report} :
      Noted whole hearings [] tally →
      Heard whole hearings (hearings.filterMap Hearing.look?) (.finished tally)
  | brokenDown {hearings : List Hearing} {rest : List Action} {tally : Report} :
      Noted whole hearings rest tally →
      Heard whole hearings (hearings.filterMap Hearing.look?) (.brokenDown tally)

/-- What a task hears with its next step. -/
def Task.hears? : Task → Option Hearing
  | .active .between (a :: _) _ =>
    match a.lookupTarget? with
    | none => some ⟨a, .unasked⟩
    | some _ => none
  | .active (.lookingUp a _ (some reply)) _ _ => some ⟨a, .heard reply.answer⟩
  | _ => none

/-- What a task does not get to hear when a limit cuts it off. -/
def Task.misses? : Task → Option Hearing
  | .active (.lookingUp a _ (some reply)) _ _ => some ⟨a, .cutOff reply.answer⟩
  | _ => none

/-- What a task looks up with its next step, and the answer. -/
def Task.looks? (remote : Remote σ) (s : σ) (task : Task) :
    Option (Entity × Answer (Option Timestamp)) :=
  (task.request?.bind Request.entity?).map fun entity => (entity, (remote.lookup s entity).1.answer)

theorem filterMap_concat {α β : Type} (f : α → Option β) (l : List α) (x : α) :
    (l ++ [x]).filterMap f = l.filterMap f ++ (f x).toList := by
  rw [List.filterMap_append]
  rcases hx : f x with _ | y <;> simp [hx]

section Steps

variable {whole queue : List Action} {hearings : List Hearing} {tally : Report} {a : Action}

/-- An action that was heard about is past its look-up. -/
theorem Noted.carriedOut (h : Noted whole hearings queue tally) (conflicted : Bool)
    (calls : List Call) :
    (Task.carryOut a conflicted calls queue tally).task.Heard whole hearings
      (hearings.filterMap Hearing.look?) := by
  rcases calls with _ | ⟨call, later⟩
  · exact .between ⟨h.split, h.conflicts⟩
  · exact .calling h

theorem Noted.failed (h : Noted whole hearings queue tally) (conflicted : Bool) :
    (Task.fail a conflicted queue tally).task.Heard whole hearings
      (hearings.filterMap Hearing.look?) :=
  .between ⟨h.split, h.conflicts⟩

theorem Noted.attempted (h : Noted whole hearings queue tally) (conflicted : Bool) :
    (Task.attempt a conflicted queue tally).task.Heard whole hearings
      (hearings.filterMap Hearing.look?) := by
  unfold Task.attempt
  rcases Operation.ofAction a with e | op
  · exact h.failed conflicted
  · exact h.carriedOut conflicted op.calls

/-- Once an action is heard about, its conflict joins those that were found. -/
theorem Noted.heard (hearing : Hearing) (h : Noted whole hearings (hearing.action :: queue) tally) :
    Noted whole (hearings ++ [hearing]) queue
      { tally with conflicts := tally.conflicts ++ hearing.conflict?.toList } where
  split := by
    rw [h.split, List.map_append, List.append_assoc]
    rfl
  conflicts := by
    rw [h.conflicts, filterMap_concat]

/-- A task settles what it has heard. -/
theorem Noted.settled (hearing : Hearing)
    (h : Noted whole hearings (hearing.action :: queue) tally) :
    (Task.settle hearing.action (Conflict.ofModification? hearing.action hearing.news.time?) queue
      tally).task.Heard whole (hearings ++ [hearing])
        (hearings.filterMap Hearing.look? ++ hearing.look?.toList) := by
  have hnoted := h.heard
  unfold Hearing.conflict? at hnoted
  rw [← filterMap_concat]
  unfold Task.settle
  rcases hfound : Conflict.ofModification? hearing.action hearing.news.time? with _ | c
  · rw [hfound, Option.map_none, Option.toList_none, List.append_nil] at hnoted
    exact hnoted.attempted false
  · rw [hfound] at hnoted
    simp only
    split
    · exact hnoted.attempted true
    · exact .between hnoted

/-- An action is taken up: if it names an entity, that is looked up next. -/
theorem Noted.takenUp (h : Noted whole hearings (a :: queue) tally) :
    (Task.takeUp a queue tally).task.Heard whole
      (hearings ++ (Task.active .between (a :: queue) tally).hears?.toList)
        (hearings.filterMap Hearing.look?) := by
  have hcounted : Noted whole hearings (a :: queue)
      { tally with processed := tally.processed + 1 } := ⟨h.split, h.conflicts⟩
  rcases htarget : a.lookupTarget? with _ | entity
  · have hsettled := hcounted.settled ⟨a, .unasked⟩
    simpa [Task.takeUp, Task.hears?, Hearing.look?, News.time?, Conflict.ofModification?,
      htarget] using hsettled
  · have hlooking : (Task.active (.lookingUp a entity none) queue _).Heard whole hearings _ :=
      .lookingUp hcounted htarget
    simpa [Task.takeUp, Task.hears?, htarget] using hlooking

/-- A step with which nothing is heard and nothing looked up. -/
theorem Task.Heard.silent {looked : List (Entity × Answer (Option Timestamp))} {task next : Task}
    {s : σ} (h : next.Heard whole hearings looked) (hhears : task.hears? = none)
    (hlooks : task.looks? remote s = none) :
    next.Heard whole (hearings ++ task.hears?.toList)
      (looked ++ (task.looks? remote s).toList) := by
  rw [hhears, hlooks, Option.toList_none, Option.toList_none, List.append_nil, List.append_nil]
  exact h

/-- **A step of a task is heard about**, and so is its look-up. -/
theorem Task.Heard.advance {looked : List (Entity × Answer (Option Timestamp))} {task : Task}
    (h : task.Heard whole hearings looked) {s s' : σ} {stride : Stride}
    (hstep : task.Advances remote s stride s') :
    stride.task.Heard whole (hearings ++ task.hears?.toList)
      (looked ++ (task.looks? remote s).toList) := by
  cases hstep with
  | finish =>
    cases h with
    | between h => exact (Heard.finished h).silent rfl rfl
  | takeUp =>
    cases h with
    | between h => simpa [looks?, request?] using h.takenUp
  | @look a entity queue tally =>
    cases h with
    | lookingUp h htarget =>
      have hlooking : (active (.lookingUp a entity (some (remote.lookup s entity).1)) queue
          tally).Heard whole hearings _ := .lookingUp h htarget
      simpa [hears?, looks?, request?, Request.entity?] using hlooking
  | @lookBroke a entity delay queue tally =>
    cases h with
    | lookingUp h htarget =>
      have hnoted := h.heard ⟨a, .heard .breakdown⟩
      have hbroken := Heard.brokenDown hnoted
      rw [filterMap_concat] at hbroken
      simpa [hears?, looks?, request?, Hearing.look?, Hearing.conflict?, News.time?, News.answer?,
        Answer.time?, Conflict.ofModification?, htarget] using hbroken
  | @looked a entity answer delay queue tally _ =>
    cases h with
    | lookingUp h htarget =>
      have hsettled := h.settled ⟨a, .heard answer⟩
      simpa [hears?, looks?, request?, Hearing.look?, News.time?, News.answer?, htarget]
        using hsettled
  | call =>
    cases h with
    | calling h => exact (Heard.calling h).silent rfl rfl
  | callBroke =>
    cases h with
    | calling h => exact (Heard.brokenDown h).silent rfl rfl
  | refused =>
    cases h with
    | calling h => exact (h.failed _).silent rfl rfl
  | accepted =>
    cases h with
    | calling h => exact (h.carriedOut _ _).silent rfl rfl

/-- **A step that a limit brings about is heard about as well.** -/
theorem Task.Heard.expire {looked : List (Entity × Answer (Option Timestamp))} {task : Task}
    (h : task.Heard whole hearings looked) {stride : Stride} (hstep : task.Expires limits stride) :
    stride.task.Heard whole (hearings ++ task.misses?.toList) looked := by
  cases hstep with
  | @lookup a entity reply queue tally _ =>
    cases h with
    | lookingUp h htarget =>
      have hsettled := h.settled ⟨a, .cutOff reply.answer⟩
      simpa [misses?, Hearing.look?, News.time?, News.answer?, htarget] using hsettled
  | delivery _ =>
    cases h with
    | calling h => simpa [misses?] using h.failed _

end Steps

/-! ## What is heard in the course of a schedule -/

namespace Run

/-- What moves tell, one after the other, as far as they can be made. -/
def gather {α : Type} (tell? : Run × Shared σ → Move → Option α) (remote : Remote σ)
    (limits : Limits) : List Move → Run × Shared σ → List α
  | [], _ => []
  | move :: moves, s =>
    match s.1.step? remote limits s.2 move with
    | some next => (tell? s move).toList ++ gather tell? remote limits moves next
    | none => []

theorem gather_cons {α : Type} {tell? : Run × Shared σ → Move → Option α} {move : Move}
    {s next : Run × Shared σ} (h : s.1.step? remote limits s.2 move = some next)
    (moves : List Move) :
    gather tell? remote limits (move :: moves) s =
      (tell? s move).toList ++ gather tell? remote limits moves next := by
  rw [gather, h]

/-- What the task with an index hears with a move. -/
def hears? (i : Nat) (s : Run × Shared σ) : Move → Option Hearing
  | .start _ => none
  | .advance j => if j = i then s.1.tasks[i]?.bind Task.hears? else none
  | .expire j => if j = i then s.1.tasks[i]?.bind Task.misses? else none

/-- What the task with an index looks up with a move, and the answer. -/
def looks? (remote : Remote σ) (i : Nat) (s : Run × Shared σ) :
    Move → Option (Entity × Answer (Option Timestamp))
  | .start _ => none
  | .advance j => if j = i then s.1.tasks[i]?.bind (Task.looks? remote s.2.remote) else none
  | .expire _ => none

section Schedule

variable {i : Nat} {task : Task} {whole : List Action} {hearings : List Hearing}
  {looked : List (Entity × Answer (Option Timestamp))}

/-- **A move keeps what a task has heard**, and adds what it hears now. -/
theorem heard_of_step? {move : Move} {s s' : Run × Shared σ}
    (h : s.1.step? remote limits s.2 move = some s') (htask : s.1.tasks[i]? = some task)
    (hheard : task.Heard whole hearings looked) :
    ∃ task', s'.1.tasks[i]? = some task' ∧
      task'.Heard whole (hearings ++ (hears? i s move).toList)
        (looked ++ (looks? remote i s move).toList) := by
  have hlt : i < s.1.tasks.length := (List.getElem?_eq_some_iff.mp htask).1
  cases move with
  | start j =>
    obtain ⟨queue, hwaiting, -, rfl⟩ := step?_start.mp h
    by_cases hj : j = i
    · subst hj
      rw [htask] at hwaiting
      cases hwaiting
      cases hheard with
      | waiting => exact ⟨_, List.getElem?_set_self hlt, .between ⟨rfl, rfl⟩⟩
    · refine ⟨task, (List.getElem?_set_ne hj).trans htask, ?_⟩
      simpa [hears?, looks?] using hheard
  | advance j =>
    obtain ⟨stepped, stride, t, hstepped, hadvance, rfl⟩ := step?_advance.mp h
    by_cases hj : j = i
    · subst hj
      rw [htask] at hstepped
      cases hstepped
      refine ⟨_, List.getElem?_set_self hlt, ?_⟩
      simpa [hears?, looks?, htask] using hheard.advance (.of_advance? hadvance)
    · refine ⟨task, (List.getElem?_set_ne hj).trans htask, ?_⟩
      simpa [hears?, looks?, hj] using hheard
  | expire j =>
    obtain ⟨stepped, stride, hstepped, hexpire, rfl⟩ := step?_expire.mp h
    by_cases hj : j = i
    · subst hj
      rw [htask] at hstepped
      cases hstepped
      refine ⟨_, List.getElem?_set_self hlt, ?_⟩
      simpa [hears?, looks?, htask] using hheard.expire (.of_expire? hexpire)
    · refine ⟨task, (List.getElem?_set_ne hj).trans htask, ?_⟩
      simpa [hears?, looks?, hj] using hheard

/-- **What a task has heard at the end of a schedule** is what it heard with the moves. -/
theorem heard_of_follow? {moves : List Move} {s s' : Run × Shared σ}
    (h : follow? remote limits moves s = some s') (htask : s.1.tasks[i]? = some task)
    (hheard : task.Heard whole hearings looked) :
    ∃ task', s'.1.tasks[i]? = some task' ∧
      task'.Heard whole (hearings ++ gather (hears? i) remote limits moves s)
        (looked ++ gather (looks? remote i) remote limits moves s) := by
  induction moves generalizing s task hearings looked with
  | nil =>
    cases h
    exact ⟨task, htask, by simpa [gather] using hheard⟩
  | cons move moves ih =>
    obtain ⟨next, hnext, hrest⟩ := follow?_cons.mp h
    obtain ⟨task', htask', hheard'⟩ := heard_of_step? hnext htask hheard
    rw [gather_cons hnext, gather_cons hnext, ← List.append_assoc, ← List.append_assoc]
    exact ih hrest htask' hheard'

end Schedule

/-- The conflicts in a report are those of the tasks that finished, in the order of the topics. -/
theorem report_conflicts (r : Run) :
    r.report.conflicts = r.tasks.flatMap (·.contribution.conflicts) := by
  rw [report_eq_concat, Report.concat_eq]
  exact List.flatMap_map _ _ _

end Run

/-! ## Syncs -/

/-- What a task has found out so far, whether it reports it or not. -/
def Task.tally : Task → Report
  | .waiting _ => .empty
  | .active _ _ tally => tally
  | .finished tally => tally
  | .brokenDown tally => tally

/-- A task reports what it found out, or nothing. -/
theorem Task.contribution_conflicts_subset (task : Task) :
    task.contribution.conflicts ⊆ task.tally.conflicts := by
  cases task with
  | finished tally => exact fun _ hc => hc
  | waiting _ => exact List.nil_subset _
  | active _ _ _ => exact List.nil_subset _
  | brokenDown _ => exact List.nil_subset _

/-- What a task that has ended made of what it heard. -/
structure Task.Heeded (queue : List Action) (hearings : List Hearing)
    (looked : List (Entity × Answer (Option Timestamp))) (task : Task) : Prop where
  /-- Each answer is the one that the remote system gave to the look-up for this action. -/
  looked : looked = hearings.filterMap Hearing.look?
  /-- It heard about the actions of its queue in their order. -/
  heard : hearings.map (·.action) <+: queue
  /-- It heard about all of them, unless it broke down. -/
  all : (∀ tally, task ≠ .brokenDown tally) → hearings.map (·.action) = queue
  /-- Its conflicts are those of what it heard. -/
  conflicts : task.tally.conflicts = hearings.filterMap Hearing.conflict?
  /-- It discarded just those actions that lost by what it heard about them. -/
  discarded : task.tally.discarded = (hearings.filter Hearing.loses).map (·.action)

theorem Task.Heard.heeded {queue : List Action} {hearings : List Hearing}
    {looked : List (Entity × Answer (Option Timestamp))} {task : Task}
    (h : task.Heard queue hearings looked) (hended : task.isEnded = true) :
    task.Heeded queue hearings looked := by
  cases h with
  | waiting => cases hended
  | between _ => cases hended
  | lookingUp _ _ => cases hended
  | calling _ => cases hended
  | finished h =>
    have hall : hearings.map (·.action) = queue := by rw [h.split, List.append_nil]
    exact ⟨rfl, hall ▸ List.prefix_rfl, fun _ => hall, h.conflicts,
      discarded_of_hearings h.conflicts⟩
  | brokenDown h =>
    exact ⟨rfl, ⟨_, h.split.symm⟩, fun hwhole => absurd rfl (hwhole _), h.conflicts,
      discarded_of_hearings h.conflicts⟩

namespace Syncer

variable {config : Config} {actions : List Action} {s : Syncer σ} {moves : List Move} {run : Run}
  {shared : Shared σ}

/-- What the task of the topic with an index hears in the course of a schedule. -/
def hearings (remote : Remote σ) (s : Syncer σ) (config : Config) (actions : List Action)
    (moves : List Move) (i : Nat) : List Hearing :=
  Run.gather (Run.hears? i) remote config.limits moves
    (Run.ofActions config actions, ⟨.ofBatch actions.length, s.shared.remote⟩)

/-- What this task looks up, and the answers. -/
def lookups (remote : Remote σ) (s : Syncer σ) (config : Config) (actions : List Action)
    (moves : List Move) (i : Nat) : List (Entity × Answer (Option Timestamp)) :=
  Run.gather (Run.looks? remote i) remote config.limits moves
    (Run.ofActions config actions, ⟨.ofBatch actions.length, s.shared.remote⟩)

/-- What a sync discards, and what it goes by. -/
structure Heeds (remote : Remote σ) (config : Config) (actions : List Action) (s : Syncer σ)
    (moves : List Move) (run : Run) : Prop where
  /-- A conflict is about a submitted action alone, whatever the remote system knows. -/
  conflicts : ∀ c ∈ run.report.conflicts, c.Lone actions
  /-- No action that was made at or after the epoch is discarded. -/
  spared : ∀ a ∈ run.report.discarded, a.createdAt < .epoch
  /-- What is reported to be discarded was discarded by the tasks. -/
  reported : run.report.discarded = run.tasks.flatMap (·.contribution.discarded)
  /-- Each task goes by what it hears. -/
  tasks : ∀ i q, (TopicQueue.ofActions config.fallbackTopic actions)[i]? = some q →
    ∃ task : Task, run.tasks[i]? = some task ∧
      task.Heeded q.actions (s.hearings remote config actions moves i)
        (s.lookups remote config actions moves i)

/-- The task of a topic has heard about the actions of its queue. -/
theorem Serves.exists_heeded (h : s.Serves remote config actions moves run shared) {i : Nat}
    {q : TopicQueue} (hq : (TopicQueue.ofActions config.fallbackTopic actions)[i]? = some q) :
    ∃ task, run.tasks[i]? = some task ∧
      task.Heeded q.actions (s.hearings remote config actions moves i)
        (s.lookups remote config actions moves i) := by
  have hwaiting : (Run.ofActions config actions).tasks[i]? = some (.waiting q.actions) := by
    unfold Run.ofActions
    rw [List.getElem?_map, hq]
    rfl
  obtain ⟨task, htask, hheard⟩ := Run.heard_of_follow? h.moved hwaiting .waiting
  have hended := List.all_eq_true.mp h.done task (List.mem_of_getElem? htask)
  exact ⟨task, htask, hheard.heeded hended⟩

/-- A conflict that is reported was found by what a task heard about an action of the batch. -/
theorem Serves.exists_hearing (h : s.Serves remote config actions moves run shared) :
    ∀ c ∈ run.report.conflicts, ∃ i, ∃ hearing ∈ s.hearings remote config actions moves i,
      hearing.action ∈ actions ∧ hearing.conflict? = some c ∧
        ∀ look ∈ hearing.look?, look ∈ s.lookups remote config actions moves i := by
  intro c hc
  rw [Run.report_conflicts] at hc
  obtain ⟨task, htask, hc⟩ := List.mem_flatMap.mp hc
  obtain ⟨i, hi⟩ := List.mem_iff_getElem?.mp htask
  -- There is a topic to the task.
  have hlength := Run.length_tasks h.moved
  simp only [Run.ofActions, List.length_map] at hlength
  have hlt : i < (TopicQueue.ofActions config.fallbackTopic actions).length :=
    hlength ▸ (List.getElem?_eq_some_iff.mp hi).1
  have hq := List.getElem?_eq_getElem hlt
  obtain ⟨task', hi', hheeded⟩ := h.exists_heeded hq
  rw [hi] at hi'
  cases hi'
  -- What the task reports it found for an action of its queue.
  have hfound := task.contribution_conflicts_subset hc
  rw [hheeded.conflicts] at hfound
  obtain ⟨hearing, hhearing, hconflict⟩ := List.mem_filterMap.mp hfound
  have hqueue := hheeded.heard.subset (List.mem_map_of_mem hhearing)
  have hlinedUp := List.mem_flatMap.mpr ⟨_, List.mem_of_getElem? hq, hqueue⟩
  refine ⟨i, hearing, hhearing, ?_, hconflict, fun look hlook => ?_⟩
  · exact (TopicQueue.linedUp_perm config.fallbackTopic actions).subset hlinedUp
  · rw [hheeded.looked]
    exact List.mem_filterMap.mpr ⟨hearing, hhearing, hlook⟩

/-- A conflict that is reported was found for an action of the batch. -/
theorem Serves.lone (h : s.Serves remote config actions moves run shared) :
    ∀ c ∈ run.report.conflicts, c.Lone actions := by
  intro c hc
  obtain ⟨i, hearing, -, haction, hconflict, -⟩ := h.exists_hearing c hc
  exact Hearing.lone haction c hconflict

/-- **Every sync goes by what it hears**, and discards no action that was made at or after the
epoch. -/
theorem Serves.heeds (h : s.Serves remote config actions moves run shared) :
    s.Heeds remote config actions moves run where
  conflicts := h.lone
  spared a ha := by
    obtain ⟨c, hc, rfl⟩ := List.mem_map.mp ha
    obtain ⟨hc, hdiscards⟩ := List.mem_filter.mp hc
    exact (h.lone c hc).discards_iff.mp hdiscards
  reported := by
    unfold Report.discarded
    rw [Run.report_conflicts, List.filter_flatMap, List.map_flatMap]
  tasks _ _ := h.exists_heeded

/-- The early like loses by the time that is heard about its post, and the other one is not asked
about. -/
theorem heeds_sample :
    (start sampleScript).Serves ScriptedRemote.remote .default sampleBatch sampleMoves sampleRun
        sampleShared ∧
      (start sampleScript).Heeds ScriptedRemote.remote .default sampleBatch sampleMoves sampleRun ∧
      (start sampleScript).hearings ScriptedRemote.remote .default sampleBatch sampleMoves 0 =
        [⟨sampleLike, .unasked⟩, ⟨sampleEarly, .heard (.value (some .epoch))⟩] ∧
      sampleRun.report.discarded = [sampleEarly] :=
  ⟨sample_serves, sample_serves.heeds, by decide +kernel, by decide +kernel⟩

end Syncer
end Outbox
