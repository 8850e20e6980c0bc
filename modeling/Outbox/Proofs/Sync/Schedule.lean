import Outbox.Proofs.Sync.Step

/-!
# Schedules

A schedule of a run is a list of moves, and `Run.follow?` makes them one after the other, as long
as each is possible. Every schedule is finite, and a run that is not done can be taken further:

* `Run.step?_work`: a move leaves less to do, so a schedule has no more moves than the run has work
  at its start (`Run.follow?_length`).
* `Run.PlacesKept`: the free places and those of the active tasks make up the bound.
* `Run.exists_move`: a run that is not done can make a move. A task that waits for a place gets
  one, or the places are taken by tasks that go on. So every schedule leads on to one that ends
  with the run done (`Run.exists_schedule`).
-/

namespace Outbox

variable {σ : Type} {remote : Remote σ} {limits : Limits}

/-! ## Less and less to do -/

theorem Operation.length_calls (op : Operation) : op.calls.length ≤ 2 := by
  cases op <;> simp [Operation.calls]

namespace Task

theorem work_carryOut (a : Action) (conflicted : Bool) (calls : List Call) (queue : List Action)
    (tally : Report) :
    (carryOut a conflicted calls queue tally).task.work ≤
      1 + 2 * calls.length + actionWork * queue.length := by
  cases calls with
  | nil => exact Nat.le_refl _
  | cons call later =>
    simp only [carryOut, work, phaseWork, List.length_cons]
    omega

theorem work_attempt (a : Action) (conflicted : Bool) (queue : List Action) (tally : Report) :
    (attempt a conflicted queue tally).task.work ≤ 5 + actionWork * queue.length := by
  unfold attempt
  split
  · simp only [fail, close, work, phaseWork]
    omega
  · rename_i op _
    have h := work_carryOut a conflicted op.calls queue tally
    have hlen := op.length_calls
    omega

theorem work_settle (a : Action) (conflict : Option Conflict) (queue : List Action)
    (tally : Report) :
    (settle a conflict queue tally).task.work ≤ 5 + actionWork * queue.length := by
  cases conflict with
  | none => exact work_attempt a false queue tally
  | some c =>
    simp only [settle]
    split
    · exact work_attempt a true queue _
    · simp only [close, work, phaseWork]
      omega

theorem work_takeUp (a : Action) (queue : List Action) (tally : Report) :
    (takeUp a queue tally).task.work ≤ 7 + actionWork * queue.length := by
  simp only [takeUp]
  split
  · have h := work_settle a none queue { tally with processed := tally.processed + 1 }
    omega
  · simp only [work, phaseWork]
    omega

/-- A step leaves less to do. -/
theorem Advances.work_lt {task : Task} {s s' : σ} {stride : Stride}
    (h : task.Advances remote s stride s') : stride.task.work < task.work := by
  cases h with
  | finish => exact Nat.zero_lt_one
  | @takeUp a queue tally =>
    have h := work_takeUp a queue tally
    simp only [work, phaseWork, List.length_cons, actionWork] at h ⊢
    omega
  | @looked a entity answer delay queue tally =>
    have h := work_settle a (Conflict.ofModification? a answer.time?) queue tally
    simp only [work, phaseWork] at h ⊢
    omega
  | refused =>
    simp only [fail, close, work, phaseWork]
    omega
  | @accepted a conflicted call later delay queue tally =>
    have h := work_carryOut a conflicted later queue tally
    simp only [work, phaseWork] at h ⊢
    omega
  | _ =>
    simp only [work, phaseWork]
    omega

theorem Expires.work_lt {task : Task} {stride : Stride} (h : task.Expires limits stride) :
    stride.task.work < task.work := by
  cases h with
  | @lookup a entity reply queue tally =>
    have h := work_settle a (Conflict.ofModification? a none) queue tally
    simp only [work, phaseWork] at h ⊢
    omega
  | delivery =>
    simp only [fail, close, work, phaseWork]
    omega

end Task

/-- A task that is replaced by one with less to do leaves less to do in all. -/
theorem Run.foldr_work_set {tasks : List Task} {i : Nat} {task task' : Task}
    (htask : tasks[i]? = some task) (h : task'.work < task.work) :
    (tasks.set i task').foldr (fun task left => task.work + left) 0 <
      tasks.foldr (fun task left => task.work + left) 0 := by
  induction tasks generalizing i with
  | nil => cases htask
  | cons t tasks ih =>
    cases i with
    | zero =>
      cases htask
      rw [List.set_cons_zero, List.foldr_cons, List.foldr_cons]
      omega
    | succ i =>
      have := ih htask
      rw [List.set_cons_succ, List.foldr_cons, List.foldr_cons]
      omega

/-- **A move leaves less to do.** -/
theorem Run.step?_work {s s' : Run × Shared σ} {move : Move}
    (h : s.1.step? remote limits s.2 move = some s') : s'.1.work < s.1.work := by
  cases move with
  | start i =>
    obtain ⟨queue, htask, -, rfl⟩ := step?_start.mp h
    refine foldr_work_set htask ?_
    simp only [Task.work, Task.phaseWork]
    omega
  | advance i =>
    obtain ⟨task, stride, t, htask, hstep, rfl⟩ := step?_advance.mp h
    exact foldr_work_set htask (Task.Advances.of_advance? hstep).work_lt
  | expire i =>
    obtain ⟨task, stride, htask, hstep, rfl⟩ := step?_expire.mp h
    exact foldr_work_set htask (Task.Expires.of_expire? hstep).work_lt

/-- **Every schedule is finite**: it has at most as many moves as there is work. -/
theorem Run.follow?_length {moves : List Move} {s s' : Run × Shared σ}
    (h : follow? remote limits moves s = some s') : moves.length + s'.1.work ≤ s.1.work := by
  induction moves generalizing s with
  | nil =>
    cases h
    exact Nat.le_of_eq (Nat.zero_add _)
  | cons move moves ih =>
    obtain ⟨next, hnext, hrest⟩ := follow?_cons.mp h
    have hwork := step?_work hnext
    have hlen := ih hrest
    rw [List.length_cons]
    omega

/-! ## Places -/

namespace Task

/-- Whether a task has begun and not ended. -/
def isActive : Task → Bool
  | .active _ _ _ => true
  | _ => false

theorem isActive_attempt (a : Action) (conflicted : Bool) (queue : List Action) (tally : Report) :
    (attempt a conflicted queue tally).task.isActive = true := by
  unfold attempt
  split
  · rfl
  · rename_i op _
    cases op.calls <;> rfl

theorem isActive_settle (a : Action) (conflict : Option Conflict) (queue : List Action)
    (tally : Report) : (settle a conflict queue tally).task.isActive = true := by
  cases conflict with
  | none => exact isActive_attempt a false queue tally
  | some c =>
    simp only [settle]
    split
    · exact isActive_attempt a true queue _
    · rfl

theorem isActive_takeUp (a : Action) (queue : List Action) (tally : Report) :
    (takeUp a queue tally).task.isActive = true := by
  simp only [takeUp]
  split
  · exact isActive_settle a none queue _
  · rfl

theorem isActive_of_ended {task : Task} (h : task.isEnded = true) : task.isActive = false := by
  cases task <;> first | rfl | cases h

theorem isEnded_of_active {task : Task} (h : task.isActive = true) : task.isEnded = false := by
  cases task <;> first | rfl | cases h

/-- Only a task that has begun goes on, and then it is active still or has ended. -/
theorem Advances.isActive {task : Task} {s s' : σ} {stride : Stride}
    (h : task.Advances remote s stride s') :
    task.isActive = true ∧ (stride.task.isActive = true ∨ stride.task.isEnded = true) := by
  cases h with
  | takeUp => exact ⟨rfl, Or.inl (isActive_takeUp _ _ _)⟩
  | looked => exact ⟨rfl, Or.inl (isActive_settle _ _ _ _)⟩
  | @accepted _ _ _ later => exact ⟨rfl, Or.inl (by cases later <;> rfl)⟩
  | finish => exact ⟨rfl, Or.inr rfl⟩
  | lookBroke => exact ⟨rfl, Or.inr rfl⟩
  | callBroke => exact ⟨rfl, Or.inr rfl⟩
  | _ => exact ⟨rfl, Or.inl rfl⟩

theorem Expires.isActive {task : Task} {stride : Stride} (h : task.Expires limits stride) :
    task.isActive = true ∧ stride.task.isActive = true := by
  cases h with
  | lookup => exact ⟨rfl, isActive_settle _ _ _ _⟩
  | delivery => exact ⟨rfl, rfl⟩

/-- A task that has begun and not ended can make a step, whatever the remote system answers. -/
theorem exists_advance? (remote : Remote σ) (s : σ) {task : Task} (h : task.isActive = true) :
    ∃ next, task.advance? remote s = some next := by
  cases task with
  | waiting queue => cases h
  | finished tally => cases h
  | brokenDown tally => cases h
  | active phase queue tally =>
    cases phase with
    | between =>
      cases queue with
      | nil => exact ⟨_, rfl⟩
      | cons a queue => exact ⟨_, rfl⟩
    | lookingUp a entity reply =>
      cases reply with
      | none => exact ⟨_, rfl⟩
      | some reply =>
        obtain ⟨answer, delay⟩ := reply
        cases answer <;> exact ⟨_, rfl⟩
    | calling a conflicted call later reply =>
      cases reply with
      | none => exact ⟨_, rfl⟩
      | some reply =>
        obtain ⟨answer, delay⟩ := reply
        cases answer <;> exact ⟨_, rfl⟩

end Task

namespace Run

/-- The tasks that have begun and not ended. -/
def active (r : Run) : Nat := r.tasks.countP Task.isActive

/-- The free places and those of the active tasks make up the bound, if there is one. -/
def PlacesKept (bound : Nat) (r : Run) : Prop :=
  ∀ free, r.places = some free → 0 < bound ∧ free + r.active = bound

theorem countP_isActive_set {tasks : List Task} {i : Nat} {task : Task} (task' : Task)
    (htask : tasks[i]? = some task) :
    (tasks.set i task').countP Task.isActive + task.isActive.toNat =
      tasks.countP Task.isActive + task'.isActive.toNat := by
  induction tasks generalizing i with
  | nil => cases htask
  | cons t tasks ih =>
    cases i with
    | zero =>
      cases htask
      rw [List.set_cons_zero, List.countP_cons, List.countP_cons]
      cases task.isActive <;> cases task'.isActive <;> simp
    | succ i =>
      have := ih htask
      rw [List.set_cons_succ, List.countP_cons, List.countP_cons]
      omega

theorem placesKept_ofActions (config : Config) (actions : List Action) :
    (ofActions config actions).PlacesKept config.topicsAtATime := by
  intro free hfree
  have hactive : (ofActions config actions).active = 0 := by
    unfold active ofActions
    rw [List.countP_map]
    exact List.countP_eq_zero.mpr fun q _ => Bool.false_ne_true
  unfold ofActions at hfree
  simp only at hfree
  split at hfree
  · cases hfree
  · rename_i hbound
    cases hfree
    exact ⟨Nat.pos_of_ne_zero hbound, by rw [hactive]; rfl⟩

/-- A task that ends gives its place back, and one that goes on keeps it. -/
theorem placesKept_put {r : Run} {bound : Nat} {shared : Shared σ} {i : Nat} {task : Task}
    {stride : Stride} {s : σ} (h : r.PlacesKept bound) (htask : r.tasks[i]? = some task)
    (hbefore : task.isActive = true)
    (hafter : stride.task.isActive = true ∨ stride.task.isEnded = true) :
    (r.put shared i stride s).1.PlacesKept bound := by
  have hcount := countP_isActive_set stride.task htask
  rw [hbefore] at hcount
  intro free hfree
  unfold put active at *
  simp only at hfree ⊢
  rcases hafter with hafter | hafter
  · rw [Task.isEnded_of_active hafter, if_neg Bool.false_ne_true] at hfree
    obtain ⟨hbound, hsum⟩ := h free hfree
    rw [hafter] at hcount
    exact ⟨hbound, by unfold active at hsum; omega⟩
  · rw [hafter, if_pos rfl] at hfree
    obtain ⟨free', hfree', rfl⟩ := Option.map_eq_some_iff.mp hfree
    obtain ⟨hbound, hsum⟩ := h free' hfree'
    rw [Task.isActive_of_ended hafter, Bool.toNat_false, Bool.toNat_true] at hcount
    exact ⟨hbound, by unfold active at hsum; omega⟩

/-- **Places are kept.** -/
theorem placesKept_step? {s s' : Run × Shared σ} {bound : Nat} {move : Move}
    (hs : s.1.PlacesKept bound) (h : s.1.step? remote limits s.2 move = some s') :
    s'.1.PlacesKept bound := by
  cases move with
  | start i =>
    obtain ⟨queue, htask, hplace, rfl⟩ := step?_start.mp h
    intro free hfree
    obtain ⟨free', hfree', rfl⟩ := Option.map_eq_some_iff.mp hfree
    obtain ⟨hbound, hsum⟩ := hs free' hfree'
    -- There was a place, so the one that is taken can be counted off.
    have hpos : free' ≠ 0 := by
      rintro rfl
      rw [hasPlace, hfree'] at hplace
      cases hplace
    have hcount := countP_isActive_set (.active .between queue .empty) htask
    simp only [Task.isActive, Bool.toNat_false, Bool.toNat_true] at hcount
    refine ⟨hbound, ?_⟩
    unfold active at hsum ⊢
    simp only
    omega
  | advance i =>
    obtain ⟨task, stride, t, htask, hstep, rfl⟩ := step?_advance.mp h
    obtain ⟨hbefore, hafter⟩ := (Task.Advances.of_advance? hstep).isActive
    exact placesKept_put hs htask hbefore hafter
  | expire i =>
    obtain ⟨task, stride, htask, hstep, rfl⟩ := step?_expire.mp h
    obtain ⟨hbefore, hafter⟩ := (Task.Expires.of_expire? hstep).isActive
    exact placesKept_put hs htask hbefore (Or.inl hafter)

/-! ## Going on -/

/-- **A run that is not done can make a move.** -/
theorem exists_move (remote : Remote σ) (limits : Limits) {r : Run} (shared : Shared σ)
    {bound : Nat} (hplaces : r.PlacesKept bound) (h : r.isDone = false) :
    ∃ move next, r.step? remote limits shared move = some next := by
  by_cases hactive : r.active = 0
  · -- Nobody holds a place, so a task that waits can have one.
    obtain ⟨task, hmem, hended⟩ : ∃ task ∈ r.tasks, task.isEnded = false := by
      unfold isDone at h
      simpa using h
    obtain ⟨i, htask⟩ := List.mem_iff_getElem?.mp hmem
    have hplace : r.hasPlace = true := by
      unfold hasPlace
      cases hfree : r.places with
      | none => rfl
      | some free =>
        obtain ⟨hbound, hsum⟩ := hplaces free hfree
        have hne : free ≠ 0 := by omega
        simpa using hne
    have hidle := List.countP_eq_zero.mp hactive task hmem
    cases task with
    | waiting queue => exact ⟨.start i, _, step?_start.mpr ⟨queue, htask, hplace, rfl⟩⟩
    | active phase queue tally => exact absurd rfl hidle
    | finished tally => cases hended
    | brokenDown tally => cases hended
  · -- A task that holds a place can go on.
    obtain ⟨task, hmem, htask⟩ := List.countP_pos_iff.mp (Nat.pos_of_ne_zero hactive)
    obtain ⟨i, hi⟩ := List.mem_iff_getElem?.mp hmem
    obtain ⟨⟨stride, s⟩, hstep⟩ := Task.exists_advance? remote shared.remote htask
    exact ⟨.advance i, _, step?_advance.mpr ⟨task, stride, s, hi, hstep, rfl⟩⟩

/-- **A schedule can be taken to the end of the run.** -/
theorem exists_schedule (remote : Remote σ) (limits : Limits) {bound : Nat} (s : Run × Shared σ)
    (hplaces : s.1.PlacesKept bound) :
    ∃ moves s', follow? remote limits moves s = some s' ∧ s'.1.isDone = true := by
  by_cases hdone : s.1.isDone = true
  · exact ⟨[], s, rfl, hdone⟩
  · obtain ⟨move, next, hnext⟩ :=
      exists_move remote limits s.2 hplaces (Bool.not_eq_true _ ▸ hdone)
    have hwork := step?_work hnext
    obtain ⟨moves, s', hmoves, hdone'⟩ :=
      exists_schedule remote limits next (placesKept_step? hplaces hnext)
    exact ⟨move :: moves, s', follow?_cons.mpr ⟨next, hnext, hmoves⟩, hdone'⟩
termination_by s.1.work

end Run
end Outbox
