import Outbox.Proofs.Sync.Request
import Outbox.Proofs.Sync.Script

/-!
# A task on its own

A script answers from its tables, whatever it was asked before. So a task against a script goes on
in one way only, and what it asks and how it ends can be told without the other tasks:
`Task.goOn?` is its next step, and `Task.Walks` says where its steps lead and what it asks on the
way.

* `Run.walks_of_follow?`: in every schedule each task makes its own walk.
* `Task.Walks.unique`: a task has one walk to an end.
-/

namespace Outbox

variable {script : ScriptedRemote} {limits : Limits}

/-! ## Steps -/

namespace Task

/-- The next step of a task that does not have to wait for a place, and what it asks. -/
def goOn? (script : ScriptedRemote) : Task → Option (List Request × Task)
  | .waiting queue => some ([], .active .between queue .empty)
  | task => (task.advance? ScriptedRemote.remote script).map fun (stride, _) =>
      (task.request?.toList, stride.task)

/-- A script that was asked before leads a task to where the script itself leads it. -/
theorem goOn?_of_advance? (hplain : script.nextFailure = none) {s s' : ScriptedRemote}
    (hs : script.Logged s) {task : Task} {stride : Stride}
    (h : task.advance? ScriptedRemote.remote s = some (stride, s')) :
    task.goOn? script = some (task.request?.toList, stride.task) ∧ script.Logged s' := by
  obtain ⟨calls, lookups, rfl⟩ := hs
  have hlogged : ∀ calls lookups, script.Logged { script with calls, lookups } :=
    fun calls lookups => ⟨calls, lookups, rfl⟩
  cases Advances.of_advance? h with
  | finish => exact ⟨rfl, hlogged _ _⟩
  | takeUp => exact ⟨rfl, hlogged _ _⟩
  | look => exact ⟨rfl, hlogged _ _⟩
  | lookBroke => exact ⟨rfl, hlogged _ _⟩
  | @looked _ _ answer _ _ _ _ hanswer =>
    refine ⟨?_, hlogged _ _⟩
    cases answer with
    | breakdown => exact absurd rfl hanswer
    | value t => rfl
    | error e => rfl
  | call =>
    refine ⟨rfl, ?_⟩
    unfold ScriptedRemote.remote
    simp only
    rw [← hplain]
    exact hlogged _ _
  | callBroke => exact ⟨rfl, hlogged _ _⟩
  | refused => exact ⟨rfl, hlogged _ _⟩
  | accepted => exact ⟨rfl, hlogged _ _⟩

theorem of_goOn? {task next : Task} {asked : List Request}
    (h : task.goOn? script = some (asked, next)) :
    (∃ queue, task = .waiting queue ∧ asked = [] ∧ next = .active .between queue .empty) ∨
      ∃ stride s, task.Advances ScriptedRemote.remote script stride s ∧
        asked = task.request?.toList ∧ next = stride.task := by
  unfold goOn? at h
  split at h
  · cases h
    exact Or.inl ⟨_, rfl, rfl, rfl⟩
  · obtain ⟨⟨stride, s⟩, hstep, h⟩ := Option.map_eq_some_iff.mp h
    cases h
    exact Or.inr ⟨stride, s, .of_advance? hstep, rfl, rfl⟩

theorem goOn?_of_isEnded {task : Task} (h : task.isEnded = true) : task.goOn? script = none := by
  cases task with
  | finished tally => rfl
  | brokenDown tally => rfl
  | waiting queue => cases h
  | active phase queue tally => cases h

/-! ## Walks -/

/-- Steps lead from one task to another, and this is what is asked on the way. -/
inductive Walks (script : ScriptedRemote) : Task → List Request → Task → Prop where
  | stay {task : Task} : Walks script task [] task
  | go {task next last : Task} {asked more : List Request} :
      task.goOn? script = some (asked, next) → Walks script next more last →
      Walks script task (asked ++ more) last

/-- **A task has one walk to an end.** -/
theorem Walks.unique {task last last' : Task} {asked asked' : List Request}
    (h : Walks script task asked last) (h' : Walks script task asked' last')
    (hended : last.isEnded = true) (hended' : last'.isEnded = true) :
    asked = asked' ∧ last = last' := by
  induction h generalizing asked' with
  | stay =>
    cases h' with
    | stay => exact ⟨rfl, rfl⟩
    | go hstep _ =>
      rw [goOn?_of_isEnded hended] at hstep
      cases hstep
  | go hstep _ ih =>
    cases h' with
    | stay =>
      rw [goOn?_of_isEnded hended'] at hstep
      cases hstep
    | go hstep' hrest =>
      rw [hstep] at hstep'
      cases hstep'
      obtain ⟨rfl, rfl⟩ := ih hrest hended
      exact ⟨rfl, rfl⟩

end Task

/-! ## Walks in a schedule -/

namespace Run

variable {s s' : Run × Shared ScriptedRemote}

/-- The tasks of a run are as many as before. -/
theorem length_tasks {moves : List Move} {σ : Type} {remote : Remote σ} {s s' : Run × Shared σ}
    (h : follow? remote limits moves s = some s') : s'.1.tasks.length = s.1.tasks.length := by
  refine follow?_keeps (I := fun s' => s'.1.tasks.length = s.1.tasks.length) ?_ h rfl
  intro before move after hbefore hstep
  rw [← hbefore]
  cases move with
  | start i =>
    obtain ⟨queue, -, -, rfl⟩ := step?_start.mp hstep
    exact List.length_set
  | advance i =>
    obtain ⟨task, stride, s, -, -, rfl⟩ := step?_advance.mp hstep
    exact List.length_set
  | expire i =>
    obtain ⟨task, stride, -, -, rfl⟩ := step?_expire.mp hstep
    exact List.length_set

/-- A move takes one task a step further and leaves the others where they are. -/
theorem walks_of_step? (hplain : script.nextFailure = none) (hs : script.Logged s.2.remote)
    (hdelivery : limits.delivery = none) (hlookup : limits.lookup = none) {move : Move}
    (h : s.1.step? ScriptedRemote.remote limits s.2 move = some s') :
    script.Logged s'.2.remote ∧ ∀ i task, s.1.tasks[i]? = some task →
      ∃ next, s'.1.tasks[i]? = some next ∧
        (asked i (s.1.request? move).toList = [] ∧ next = task ∨
          task.goOn? script = some (asked i (s.1.request? move).toList, next)) := by
  -- A task that is replaced has made a step, and the others ask nothing.
  have hset : ∀ (i : Nat) (before after : Task) (requests : List Request),
      s.1.tasks[i]? = some before → before.goOn? script = some (requests, after) →
      ∀ j task, s.1.tasks[j]? = some task → ∃ next, (s.1.tasks.set i after)[j]? = some next ∧
        (asked j (requests.map fun r => (i, r)) = [] ∧ next = task ∨
          task.goOn? script = some (asked j (requests.map fun r => (i, r)), next)) := by
    intro i before after requests hbefore hstep j task htask
    by_cases hij : i = j
    · subst hij
      cases hbefore.symm.trans htask
      refine ⟨after, ?_, Or.inr ?_⟩
      · rw [List.getElem?_set_self (List.getElem?_eq_some_iff.mp htask).1]
      · rw [hstep, asked_map_self]
    · refine ⟨task, ?_, Or.inl ⟨asked_map_of_ne hij requests, rfl⟩⟩
      rw [List.getElem?_set_ne hij, htask]
  cases move with
  | start i =>
    obtain ⟨queue, htask, -, rfl⟩ := step?_start.mp h
    exact ⟨hs, hset i _ _ [] htask rfl⟩
  | advance i =>
    obtain ⟨task, stride, remote, htask, hstep, rfl⟩ := step?_advance.mp h
    obtain ⟨hgo, hlogged⟩ := Task.goOn?_of_advance? hplain hs hstep
    refine ⟨hlogged, ?_⟩
    have hrequest : (s.1.request? (.advance i)).toList =
        task.request?.toList.map fun r => (i, r) := by
      simp only [request?, htask, Option.bind_some]
      cases task.request? <;> rfl
    rw [hrequest]
    exact hset i _ _ _ htask hgo
  | expire i =>
    obtain ⟨task, stride, -, hstep, -⟩ := step?_expire.mp h
    cases Task.Expires.of_expire? hstep with
    | lookup hlimit =>
      rw [hlookup] at hlimit
      cases hlimit
    | delivery hlimit =>
      rw [hdelivery] at hlimit
      cases hlimit

/-- **In every schedule each task makes its own walk**, and asks what it asks on this walk. -/
theorem walks_of_follow? (hplain : script.nextFailure = none) (hs : script.Logged s.2.remote)
    (hdelivery : limits.delivery = none) (hlookup : limits.lookup = none) {moves : List Move}
    (h : follow? ScriptedRemote.remote limits moves s = some s') {i : Nat} {task : Task}
    (htask : s.1.tasks[i]? = some task) :
    ∃ last, s'.1.tasks[i]? = some last ∧
      task.Walks script (asked i (history ScriptedRemote.remote limits moves s)) last := by
  induction moves generalizing s task with
  | nil =>
    cases h
    exact ⟨task, htask, .stay⟩
  | cons move moves ih =>
    obtain ⟨next, hnext, hrest⟩ := follow?_cons.mp h
    obtain ⟨hlogged, htasks⟩ := walks_of_step? hplain hs hdelivery hlookup hnext
    obtain ⟨after, hafter, hstep⟩ := htasks i task htask
    obtain ⟨last, hlast, hwalk⟩ := ih hlogged hrest hafter
    refine ⟨last, hlast, ?_⟩
    rw [history_cons hnext, asked_append]
    rcases hstep with ⟨hnone, rfl⟩ | hstep
    · rwa [hnone, List.nil_append]
    · exact .go hstep hwalk

end Run
end Outbox
