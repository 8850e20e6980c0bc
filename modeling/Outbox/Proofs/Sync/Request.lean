import Outbox.Proofs.Sync.Step
import Outbox.Remote.Scripted

/-!
# What the tasks of a sync ask

`Run.history` has every look-up and call that is made in the course of a schedule, in order and with
the task that made it, and `Run.asked` those of one task. A script logs exactly these requests
(`Run.log_of_follow?`), so what is said about histories can be seen in the log.
-/

namespace Outbox

variable {σ : Type} {remote : Remote σ} {limits : Limits}

/-- What a task asks of the remote system. -/
inductive Request where
  | lookup (entity : Entity)
  | call (call : Call)
  deriving DecidableEq, Repr

namespace Request

/-- The entity of a look-up. -/
def entity? : Request → Option Entity
  | .lookup entity => some entity
  | .call _ => none

/-- The call that is made. -/
def call? : Request → Option Call
  | .lookup _ => none
  | .call c => some c

end Request

/-- What a task asks with its next step, if anything. -/
def Task.request? : Task → Option Request
  | .active (.lookingUp _ entity none) _ _ => some (.lookup entity)
  | .active (.calling _ _ call _ none) _ _ => some (.call call)
  | _ => none

namespace Run

/-- What is asked with a move, and by which task. -/
def request? (r : Run) : Move → Option (Nat × Request)
  | .advance i => (r.tasks[i]?.bind Task.request?).map fun request => (i, request)
  | .start _ => none
  | .expire _ => none

/-- All that is asked in the course of a schedule, as far as it can be followed. -/
def history (remote : Remote σ) (limits : Limits) :
    List Move → Run × Shared σ → List (Nat × Request)
  | [], _ => []
  | move :: moves, s =>
    match s.1.step? remote limits s.2 move with
    | some next => (s.1.request? move).toList ++ history remote limits moves next
    | none => []

/-- What one task asked. -/
def asked (task : Nat) (history : List (Nat × Request)) : List Request :=
  (history.filter (·.1 = task)).map (·.2)

theorem asked_append (task : Nat) (history more : List (Nat × Request)) :
    asked task (history ++ more) = asked task history ++ asked task more := by
  unfold asked
  rw [List.filter_append, List.map_append]

theorem asked_map_self (task : Nat) (requests : List Request) :
    asked task (requests.map fun r => (task, r)) = requests := by
  induction requests with
  | nil => rfl
  | cons r requests ih =>
    unfold asked at ih ⊢
    rw [List.map_cons, List.filter_cons_of_pos (by simp), List.map_cons, ih]

theorem asked_map_of_ne {task other : Nat} (h : other ≠ task) (requests : List Request) :
    asked task (requests.map fun r => (other, r)) = [] := by
  unfold asked
  rw [List.map_eq_nil_iff, List.filter_eq_nil_iff]
  intro f hf
  obtain ⟨r, -, rfl⟩ := List.mem_map.mp hf
  simpa using h

theorem history_cons {move : Move} {s next : Run × Shared σ}
    (h : s.1.step? remote limits s.2 move = some next) (moves : List Move) :
    history remote limits (move :: moves) s =
      (s.1.request? move).toList ++ history remote limits moves next := by
  rw [history, h]

/-! ## The log of a script -/

/-- A step of a task logs what the task asks. -/
theorem log_of_advance? {task : Task} {s s' : ScriptedRemote} {stride : Stride}
    (h : task.advance? ScriptedRemote.remote s = some (stride, s')) :
    s'.calls = s.calls ++ task.request?.toList.filterMap Request.call? ∧
      s'.lookups = s.lookups ++ task.request?.toList.filterMap Request.entity? := by
  have hnone : task.request? = none → s' = s →
      s'.calls = s.calls ++ task.request?.toList.filterMap Request.call? ∧
        s'.lookups = s.lookups ++ task.request?.toList.filterMap Request.entity? := by
    rintro hrequest rfl
    rw [hrequest]
    exact ⟨(List.append_nil _).symm, (List.append_nil _).symm⟩
  cases Task.Advances.of_advance? h with
  | look => exact ⟨(List.append_nil s.calls).symm, rfl⟩
  | call => exact ⟨rfl, (List.append_nil s.lookups).symm⟩
  | finish => exact hnone rfl rfl
  | takeUp => exact hnone rfl rfl
  | lookBroke => exact hnone rfl rfl
  | looked _ => exact hnone rfl rfl
  | callBroke => exact hnone rfl rfl
  | refused => exact hnone rfl rfl
  | accepted => exact hnone rfl rfl

theorem log_of_step? {move : Move} {s s' : Run × Shared ScriptedRemote}
    (h : s.1.step? ScriptedRemote.remote limits s.2 move = some s') :
    s'.2.remote.calls = s.2.remote.calls ++
        (s.1.request? move).toList.filterMap (·.2.call?) ∧
      s'.2.remote.lookups = s.2.remote.lookups ++
        (s.1.request? move).toList.filterMap (·.2.entity?) := by
  cases move with
  | start i =>
    obtain ⟨queue, -, -, rfl⟩ := step?_start.mp h
    exact ⟨(List.append_nil _).symm, (List.append_nil _).symm⟩
  | expire i =>
    obtain ⟨task, stride, -, -, rfl⟩ := step?_expire.mp h
    exact ⟨(List.append_nil _).symm, (List.append_nil _).symm⟩
  | advance i =>
    obtain ⟨task, stride, remote, htask, hstep, rfl⟩ := step?_advance.mp h
    have hlog := log_of_advance? hstep
    simp only [request?, htask, Option.bind_some]
    cases hrequest : task.request? with
    | none => rwa [hrequest] at hlog
    | some request => rwa [hrequest] at hlog

/-- **A script logs the requests of a schedule**, in the order in which they are made. -/
theorem log_of_follow? {moves : List Move} {s s' : Run × Shared ScriptedRemote}
    (h : follow? ScriptedRemote.remote limits moves s = some s') :
    s'.2.remote.calls = s.2.remote.calls ++
        (history ScriptedRemote.remote limits moves s).filterMap (·.2.call?) ∧
      s'.2.remote.lookups = s.2.remote.lookups ++
        (history ScriptedRemote.remote limits moves s).filterMap (·.2.entity?) := by
  induction moves generalizing s with
  | nil =>
    cases h
    exact ⟨(List.append_nil _).symm, (List.append_nil _).symm⟩
  | cons move moves ih =>
    obtain ⟨next, hnext, hrest⟩ := follow?_cons.mp h
    obtain ⟨hcalls, hlookups⟩ := log_of_step? hnext
    obtain ⟨hcalls', hlookups'⟩ := ih hrest
    rw [history_cons hnext, List.filterMap_append, List.filterMap_append, ← List.append_assoc,
      ← List.append_assoc, ← hcalls, ← hlookups]
    exact ⟨hcalls', hlookups'⟩

end Run
end Outbox
