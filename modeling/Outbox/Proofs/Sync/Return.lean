import Outbox.Proofs.Sync.Orderly
import Outbox.Proofs.Sync.Served

/-!
# A sync in virtual time returns

A task that has its turn makes a move, and is planned for again unless it has ended, so the timeline
stays in order (`Timeline.Orderly.act`). Whatever happens takes something off the load, which at the
start is below the number of things that may happen. So a sync without a horizon returns a report,
whatever the remote system answers.

* `Timeline.Orderly.next?`: in an orderly timeline something happens, and there is less to do.
* `Timeline.complete_served`, `Syncer.sync_serves`: the caller is served in the end.
-/

namespace Outbox

variable {σ : Type} {remote : Remote σ} {limits : Limits} {bound i : Nat} {wake : Wake}

namespace Timeline

variable {t t' : Timeline σ}

/-! ## Moves -/

/-- All that is planned for but the task whose turn it is. -/
def rest (t : Timeline σ) : List (Nat × Wake) := t.coming ++ t.line.map fun i => (i, .proceed)

theorem planned_eq (t : Timeline σ) : t.planned = t.current.toList ++ t.rest := by
  unfold planned upcoming rest
  rw [List.append_assoc]

/-- The task whose turn it is is not planned for otherwise. -/
theorem Laid.not_mem_rest (h : t.Laid limits bound) (hcurrent : t.current = some (i, wake))
    {task : Task} (htask : t.run.tasks[i]? = some task) :
    task.isEnded = false ∧ i ∉ t.rest.map Prod.fst := by
  have hcount := h.once i task htask
  rw [planned_eq, hcurrent] at hcount
  simp only [Option.toList_some, List.singleton_append, List.map_cons,
    List.count_cons_self] at hcount
  cases hended : task.isEnded with
  | true =>
    rw [hended] at hcount
    cases hcount
  | false =>
    rw [hended] at hcount
    exact ⟨rfl, List.count_eq_zero.mp (Nat.succ.inj hcount)⟩

/-- **The task whose turn it is can make its move.** -/
theorem Laid.exists_step (remote : Remote σ) (h : t.Laid limits bound)
    (hcurrent : t.current = some (i, wake)) {task : Task} (htask : t.run.tasks[i]? = some task) :
    ∃ next, t.run.step? remote limits t.shared (t.moveOf i wake) = some next := by
  obtain ⟨hended, -⟩ := h.not_mem_rest hcurrent htask
  cases wake with
  | giveUp =>
    have hmem : (i, Wake.giveUp) ∈ t.planned := by
      rw [planned_eq, hcurrent]
      exact List.mem_cons_self
    obtain ⟨task', htask', hexpire⟩ := h.givesUp i hmem
    obtain ⟨stride, hstride⟩ := Option.isSome_iff_exists.mp hexpire
    exact ⟨_, Run.step?_expire.mpr ⟨task', stride, htask', hstride, rfl⟩⟩
  | proceed =>
    unfold moveOf
    simp only
    split
    · rename_i hwaiting
      obtain ⟨queue, hqueue⟩ := isWaiting_iff.mp hwaiting
      exact ⟨_, Run.step?_start.mpr ⟨queue, hqueue, h.placed i _ hcurrent hwaiting, rfl⟩⟩
    · rename_i hwaiting
      have hactive : task.isActive = true := by
        cases task with
        | waiting queue => exact absurd (isWaiting_iff.mpr ⟨queue, htask⟩) hwaiting
        | active phase queue tally => rfl
        | finished tally => cases hended
        | brokenDown tally => cases hended
      obtain ⟨⟨stride, s⟩, hstep⟩ := Task.exists_advance? remote t.shared.remote hactive
      exact ⟨_, Run.step?_advance.mpr ⟨task, stride, s, htask, hstep, rfl⟩⟩

/-- An active task has been planned for again. -/
structure GoesOn (limits : Limits) (i : Nat) (after : Task) (t t' : Timeline σ) : Prop where
  run : t'.run = t.run
  caller : t'.caller = t.caller
  deadlines : t'.deadlines = t.deadlines
  line : t'.line = t.line
  current : ∀ j wake, t'.current = some (j, wake) → j = i
  upcoming : ∃ wake, t'.upcoming.Perm ((i, wake) :: t.coming) ∧
    (wake = .giveUp → (after.expire? limits).isSome = true)
  load : t'.load ≤ t.load + 6

/-- The task whose turn it is may keep it. -/
theorem goesOn_current (hcurrent : t.current = some (i, wake)) {after : Task} (turn : Turn)
    (wake' : Wake) (hwake : wake' = .giveUp → (after.expire? limits).isSome = true) :
    t.GoesOn limits i after { t with current := some (i, wake'), turn } where
  run := rfl
  caller := rfl
  deadlines := rfl
  line := rfl
  current := by
    rintro j wake ⟨⟩
    rfl
  upcoming := ⟨wake', List.Perm.refl _, hwake⟩
  load := by
    unfold load
    rw [hcurrent]
    exact Nat.le_add_right _ _

/-- A task that waits for an answer is planned for. -/
theorem goesOn_waitFor (hcurrent : t.current = some (i, wake)) (delay left : Option Nat)
    {after : Task} (hleft : left.isSome = true → (after.expire? limits).isSome = true) :
    t.GoesOn limits i after (t.waitFor i delay left) := by
  unfold waitFor
  simp only
  generalize hwait : t.turn.wait delay left = wait
  -- An answer can be late for a limit only.
  have hlate : (if wait.inTime then Wake.proceed else .giveUp) = .giveUp →
      (after.expire? limits).isSome = true := by
    intro hgiveUp
    cases left with
    | none =>
      rw [← hwait, Turn.inTime_wait] at hgiveUp
      cases hgiveUp
    | some left => exact hleft rfl
  generalize (if wait.inTime then Wake.proceed else .giveUp) = wake' at hlate
  split
  · refine ⟨rfl, rfl, rfl, rfl, ?_, ⟨wake', ?_, hlate⟩, ?_⟩
    · rintro j wake ⟨⟩
    · simp [upcoming, coming, Entry.due]
    · simp only [load, hcurrent, List.map_cons, List.sum_cons, List.length_cons]
      have hentry : (⟨i, wake', wait.millis⟩ : Entry).load ≤ 6 := by
        unfold Entry.load
        split <;> omega
      simp
      omega
  · split
    · exact goesOn_current hcurrent _ wake' hlate
    · refine ⟨rfl, rfl, rfl, rfl, ?_, ⟨wake', ?_, hlate⟩, ?_⟩
      · rintro j wake ⟨⟩
      · refine List.perm_iff_count.mpr fun d => ?_
        simp [upcoming, coming, Timer.due, List.count_append, List.count_cons]
        omega
      · simp [load, hcurrent]
        omega

/-- **A task that is active after its move is planned for again.** -/
theorem goesOn_plan (hcurrent : t.current = some (i, wake)) {after : Task}
    (htask : t.run.tasks[i]? = some after) (hactive : after.isActive = true)
    (hlimited : t.deadlines ≠ [] → limits.delivery.isSome = true) :
    t.GoesOn limits i after (t.plan limits i) := by
  unfold Timeline.plan
  split
  · exact goesOn_current hcurrent _ _ nofun
  · rename_i a entity reply queue tally hphase
    rw [htask] at hphase
    cases hphase
    refine goesOn_waitFor hcurrent _ _ fun hlimit => ?_
    simp only [Task.expire?, if_pos hlimit, Option.isSome_some]
  · rename_i a conflicted call later reply queue tally hphase
    rw [htask] at hphase
    cases hphase
    refine goesOn_waitFor hcurrent _ _ fun hlimit => ?_
    have hdeadlines : t.deadlines ≠ [] := by
      intro hnone
      unfold timeLeft at hlimit
      rw [hnone] at hlimit
      cases hlimit
    simp only [Task.expire?, if_pos (hlimited hdeadlines), Option.isSome_some]
  · exact goesOn_current hcurrent _ _ nofun
  · rename_i hnone
    cases after with
    | active phase queue tally => exact absurd htask (hnone phase queue tally)
    | waiting queue => cases hactive
    | finished tally => cases hactive
    | brokenDown tally => cases hactive

/-- A task that has ended is not planned for again. -/
theorem plan_of_isEnded {after : Task} (htask : t.run.tasks[i]? = some after)
    (hended : after.isEnded = true) : t.plan limits i = t.afterEnd i := by
  unfold Timeline.plan
  rw [htask]
  cases after with
  | finished tally => rfl
  | brokenDown tally => rfl
  | waiting queue => cases hended
  | active phase queue tally => cases hended

/-- A task has made a move, and its limit may have begun. -/
structure Moved (limits : Limits) (bound i : Nat) (after : Task) (t t' : Timeline σ) : Prop where
  tasks : t'.run.tasks = t.run.tasks.set i after
  places : t'.run.PlacesKept bound
  caller : t'.caller = t.caller
  current : t'.current = t.current
  coming : t'.coming = t.coming
  line : t'.line = t.line
  limited : t'.deadlines ≠ [] → limits.delivery.isSome = true
  load : t'.load + 7 ≤ t.load

section Moved

variable {before after : Task} (h : t.Orderly limits bound) (hcurrent : t.current = some (i, wake))
  (hbefore : t.run.tasks[i]? = some before) (hmoved : t.Moved limits bound i after t')

include h hcurrent hbefore hmoved

/-- The task has been replaced, and the others are as they were. -/
theorem Moved.cases {j : Nat} {task : Task} (hj : t'.run.tasks[j]? = some task) :
    (j = i ∧ task = after ∧ (t.rest.map Prod.fst).count j = 0) ∨
      (j ≠ i ∧ t.run.tasks[j]? = some task ∧
        (t.rest.map Prod.fst).count j = (!task.isEnded).toNat) := by
  obtain ⟨hended, hrest⟩ := h.not_mem_rest hcurrent hbefore
  rw [hmoved.tasks] at hj
  by_cases hji : j = i
  · subst hji
    rw [List.getElem?_set_self (List.getElem?_eq_some_iff.mp hbefore).1] at hj
    exact Or.inl ⟨rfl, (Option.some.inj hj).symm, List.count_eq_zero.mpr hrest⟩
  · rw [List.getElem?_set_ne (Ne.symm hji)] at hj
    have hcount := h.once j task hj
    rw [planned_eq, hcurrent, Option.toList_some, List.singleton_append, List.map_cons,
      List.count_cons_of_ne (Ne.symm hji)] at hcount
    exact Or.inr ⟨hji, hj, hcount⟩

/-- A task that is planned for otherwise is as it was. -/
theorem Moved.of_mem_rest {j : Nat} {wake' : Wake} (hj : (j, wake') ∈ t.rest) :
    t'.run.tasks[j]? = t.run.tasks[j]? := by
  obtain ⟨-, hrest⟩ := h.not_mem_rest hcurrent hbefore
  rw [hmoved.tasks, List.getElem?_set_ne]
  rintro rfl
  exact hrest (List.mem_map_of_mem hj)

theorem Moved.inLine {j : Nat} (hj : j ∈ t.line) : t'.isWaiting j = true := by
  have hmem : (j, Wake.proceed) ∈ t.rest :=
    List.mem_append_right _ (List.mem_map_of_mem hj)
  rw [isWaiting_iff, hmoved.of_mem_rest h hcurrent hbefore hmem]
  exact isWaiting_iff.mp (h.inLine j hj)

theorem Moved.givesUp {j : Nat} (hj : (j, Wake.giveUp) ∈ t.rest) :
    ∃ task, t'.run.tasks[j]? = some task ∧ (task.expire? limits).isSome = true := by
  rw [hmoved.of_mem_rest h hcurrent hbefore hj]
  refine h.givesUp j ?_
  rw [planned_eq]
  exact List.mem_append_right _ hj

/-- **A task that goes on leaves the plan in order.** -/
theorem Orderly.goesOn (hactive : after.isActive = true) {t'' : Timeline σ}
    (hgoes : t'.GoesOn limits i after t'') : t''.Orderly limits bound := by
  have hafter : t'.run.tasks[i]? = some after := by
    rw [hmoved.tasks, List.getElem?_set_self (List.getElem?_eq_some_iff.mp hbefore).1]
  obtain ⟨wake', hupcoming, hwake⟩ := hgoes.upcoming
  rw [hmoved.coming] at hupcoming
  have hplanned : t''.planned.Perm ((i, wake') :: t.rest) := by
    unfold planned rest
    rw [hgoes.line, hmoved.line]
    exact hupcoming.append_right _
  have hcaller : t''.caller = t.caller := hgoes.caller.trans hmoved.caller
  refine ⟨⟨?_, ?_, ?_, ?_, ?_, ?_, ?_⟩, hcaller ▸ h.here, hcaller ▸ h.fresh, ?_, ?_⟩
  · rw [hgoes.run]
    exact hmoved.places
  · intro j task hj
    rw [hgoes.run] at hj
    rw [(hplanned.map Prod.fst).count_eq, List.map_cons]
    rcases hmoved.cases h hcurrent hbefore hj with ⟨rfl, rfl, hcount⟩ | ⟨hji, -, hcount⟩
    · rw [List.count_cons_self, hcount, Task.isEnded_of_active hactive]
      rfl
    · rw [List.count_cons_of_ne (Ne.symm hji), hcount]
  · intro j hj
    rw [hgoes.run]
    rcases List.mem_cons.mp (hplanned.mem_iff.mp hj) with heq | hj
    · cases heq
      exact ⟨after, hafter, hwake rfl⟩
    · exact hmoved.givesUp h hcurrent hbefore hj
  · intro j hj
    rw [hgoes.line, hmoved.line] at hj
    rw [isWaiting_congr hgoes.run]
    exact hmoved.inLine h hcurrent hbefore hj
  · intro _
    rw [hgoes.run]
    exact ⟨i, after, wake', hafter, hupcoming.mem_iff.mpr List.mem_cons_self⟩
  · intro j wake hj hwaiting
    rw [isWaiting_congr hgoes.run, hgoes.current j wake hj] at hwaiting
    obtain ⟨queue, hqueue⟩ := isWaiting_iff.mp hwaiting
    rw [hafter] at hqueue
    cases hqueue
    cases hactive
  · rw [hgoes.deadlines]
    exact hmoved.limited
  · rw [hcaller, hgoes.run, hmoved.tasks, List.length_set]
    exact h.awaits
  · rw [hcaller, hgoes.run]
    intro hup task htask
    rcases hmoved.cases h hcurrent hbefore htask with ⟨-, rfl, -⟩ | ⟨-, htask, -⟩
    · exact Task.isEnded_of_active hactive
    · exact h.patient hup task htask

/-- **The end of a task leaves the plan in order**: the first in line goes on, and the caller takes
a turn if it waits for the task. -/
theorem Orderly.afterEnd (hended : after.isEnded = true) :
    (t'.afterEnd i).Orderly limits bound := by
  have hplanned : (t'.afterEnd i).planned.Perm t.rest := by
    refine List.perm_iff_count.mpr fun d => ?_
    have hcoming := congrArg (List.count d) hmoved.coming
    unfold rest
    rw [← hmoved.coming, ← hmoved.line]
    cases hline : t'.line with
    | nil => simp [planned, upcoming, coming, Timeline.afterEnd, hline]
    | cons j line =>
      simp [planned, upcoming, coming, Timeline.afterEnd, hline, List.count_append,
        List.count_cons, Entry.due]
      omega
  refine ⟨⟨hmoved.places, ?_, ?_, ?_, ?_, ?_, hmoved.limited⟩, ?_, ?_, ?_, ?_⟩
  · intro j task hj
    rw [(hplanned.map Prod.fst).count_eq]
    rcases hmoved.cases h hcurrent hbefore hj with ⟨rfl, rfl, hcount⟩ | ⟨-, -, hcount⟩
    · rw [hcount, hended]
      rfl
    · exact hcount
  · intro j hj
    exact hmoved.givesUp h hcurrent hbefore (hplanned.mem_iff.mp hj)
  · intro j hj
    refine hmoved.inLine h hcurrent hbefore (j := j) ?_
    rw [← hmoved.line]
    exact List.mem_of_mem_drop hj
  · intro hne
    cases hline : t'.line with
    | nil =>
      unfold Timeline.afterEnd at hne
      rw [hline] at hne
      exact absurd rfl hne
    | cons j line =>
      have hj : j ∈ t.line := by
        rw [← hmoved.line, hline]
        exact List.mem_cons_self
      obtain ⟨queue, hqueue⟩ := isWaiting_iff.mp (hmoved.inLine h hcurrent hbefore hj)
      refine ⟨j, _, .proceed, hqueue, ?_⟩
      simp [upcoming, coming, Timeline.afterEnd, hline, Entry.due]
  · rintro j wake ⟨⟩
  · change t'.caller.departure = none
    rw [hmoved.caller]
    exact h.here
  · change t'.caller.turn.waits ≠ 0
    rw [hmoved.caller]
    exact h.fresh
  · change t'.caller.awaited < t'.run.tasks.length
    rw [hmoved.caller, hmoved.tasks, List.length_set]
    exact h.awaits
  · change (t'.caller.isUp || t'.caller.awaited == i) = false →
      ∀ task, t'.run.tasks[t'.caller.awaited]? = some task → task.isEnded = false
    rw [hmoved.caller, Bool.or_eq_false_iff, beq_eq_false_iff_ne]
    rintro ⟨hup, hne⟩ task htask
    rcases hmoved.cases h hcurrent hbefore htask with ⟨heq, -, -⟩ | ⟨-, htask, -⟩
    · exact absurd heq hne
    · exact h.patient hup task htask

end Moved

theorem task_moveOf (t : Timeline σ) (i : Nat) (wake : Wake) : (t.moveOf i wake).task = i := by
  unfold moveOf
  cases wake with
  | proceed =>
    simp only
    split
    · rfl
    · rfl
  | giveUp => rfl

/-- A move replaces the task whose turn it is. -/
theorem Orderly.exists_moved (h : t.Orderly limits bound) {run : Run} {shared : Shared σ}
    (hstep : t.run.step? remote limits t.shared (t.moveOf i wake) = some (run, shared)) :
    ∃ before after, t.run.tasks[i]? = some before ∧ run.tasks[i]? = some after ∧
      (after.isActive = true ∨ after.isEnded = true) ∧
      t.Moved limits bound i after { t with run, shared } ∧
      t.Moved limits bound i after ({ t with run, shared }.beginCalls limits i) := by
  obtain ⟨before, after, hbefore, -, hafter, htasks⟩ := Run.step?_set hstep
  rw [task_moveOf] at hbefore htasks
  have hwork : run.work < t.run.work := Run.step?_work (s := (t.run, t.shared)) hstep
  have hplaces : run.PlacesKept bound :=
    Run.placesKept_step? (s := (t.run, t.shared)) h.places hstep
  have hload : ({ t with run, shared } : Timeline σ).load + 7 ≤ t.load := by
    unfold load
    rw [htasks, List.length_set]
    simp only
    omega
  refine ⟨before, after, hbefore, ?_, hafter,
    ⟨htasks, hplaces, rfl, rfl, rfl, rfl, h.limited, hload⟩, ?_⟩
  · rw [htasks, List.getElem?_set_self (List.getElem?_eq_some_iff.mp hbefore).1]
  · unfold beginCalls
    cases hlimit : limits.delivery with
    | none => exact ⟨htasks, hplaces, rfl, rfl, rfl, rfl, h.limited, hload⟩
    | some limit =>
      exact ⟨htasks, hplaces, rfl, rfl, rfl, rfl, fun _ => by rw [hlimit]; rfl, hload⟩

theorem load_afterEnd (hcurrent : t.current = some (i, wake)) :
    (t.afterEnd i).load ≤ t.load + 3 := by
  have hup : (t.caller.isUp || t.caller.awaited == i).toNat ≤ t.caller.isUp.toNat + 1 := by
    cases t.caller.isUp
    · exact Bool.toNat_le _
    · exact Nat.le_succ 1
  cases hline : t.line with
  | nil =>
    simp [load, Timeline.afterEnd, hcurrent, hline]
    omega
  | cons j line =>
    simp [load, Timeline.afterEnd, hcurrent, hline, Entry.load]
    omega

/-- Who has a turn and is no task of the sync ends with it. -/
theorem Orderly.stray (h : t.Orderly limits bound) (hcurrent : t.current = some (i, wake))
    (hnone : t.run.tasks[i]? = none) : Orderly limits bound { t with current := none } := by
  have hplanned : t.planned = (i, wake) :: { t with current := none }.planned := by
    rw [planned_eq, hcurrent]
    rfl
  have hne : ∀ {j : Nat} {task : Task}, t.run.tasks[j]? = some task → j ≠ i := by
    rintro j task hj rfl
    rw [hnone] at hj
    cases hj
  refine ⟨⟨h.places, ?_, ?_, h.inLine, ?_, nofun, h.limited⟩, h.here, h.fresh, h.awaits, h.patient⟩
  · intro j task hj
    have hcount := h.once j task hj
    rwa [hplanned, List.map_cons, List.count_cons_of_ne (Ne.symm (hne hj))] at hcount
  · intro j hj
    refine h.givesUp j ?_
    rw [hplanned]
    exact List.mem_cons_of_mem _ hj
  · intro hline
    obtain ⟨j, task, wake', hj, hmem⟩ := h.moving hline
    refine ⟨j, task, wake', hj, ?_⟩
    unfold upcoming at hmem
    rw [hcurrent] at hmem
    rcases List.mem_cons.mp hmem with heq | hmem
    · cases heq
      exact absurd rfl (hne hj)
    · exact hmem

/-- **Whoever has a turn makes a move**, and there is less to do. -/
theorem Orderly.act (remote : Remote σ) (h : t.Orderly limits bound)
    (hcurrent : t.current = some (i, wake)) :
    (t.act remote limits i wake).Orderly limits bound ∧
      (t.act remote limits i wake).load < t.load := by
  unfold Timeline.act
  cases hstep : t.run.step? remote limits t.shared (t.moveOf i wake) with
  | none =>
    have hnone : t.run.tasks[i]? = none := by
      cases htask : t.run.tasks[i]? with
      | none => rfl
      | some task =>
        obtain ⟨next, hnext⟩ := h.exists_step remote hcurrent htask
        rw [hstep] at hnext
        cases hnext
    refine ⟨h.stray hcurrent hnone, ?_⟩
    simp [load, hcurrent]
  | some next =>
    obtain ⟨run, shared⟩ := next
    obtain ⟨before, after, hbefore, hafter, hgoing, hmoved, hbegun⟩ := h.exists_moved hstep
    have hplan : ∀ t' : Timeline σ, t'.run = run → t.Moved limits bound i after t' →
        (t'.plan limits i).Orderly limits bound ∧ (t'.plan limits i).load < t.load := by
      intro t' hrun hmoved
      have hcurrent' : t'.current = some (i, wake) := hmoved.current.trans hcurrent
      have hload := hmoved.load
      rw [← hrun] at hafter
      rcases hgoing with hactive | hended
      · have hgoes := goesOn_plan hcurrent' hafter hactive hmoved.limited
        have hmore := hgoes.load
        exact ⟨h.goesOn hcurrent hbefore hmoved hactive hgoes, by omega⟩
      · have hmore := load_afterEnd hcurrent'
        rw [plan_of_isEnded hafter hended]
        exact ⟨h.afterEnd hcurrent hbefore hmoved hended, by omega⟩
    simp only
    split
    · refine hplan _ ?_ hbegun
      unfold beginCalls
      cases limits.delivery <;> rfl
    · exact hplan _ rfl hmoved

/-! ## Until the caller is served -/

/-- **In an orderly timeline something happens**, and the caller is served or there is less to
do. -/
theorem Orderly.next? (remote : Remote σ) (h : t.Orderly limits bound) :
    ∃ t', t.next? remote limits none = some t' ∧
      (t'.caller.departure = some .served ∨ t'.Orderly limits bound ∧ t'.load < t.load) := by
  unfold Timeline.next?
  rw [h.here, Option.isSome_none, if_neg Bool.false_ne_true]
  cases hcurrent : t.current with
  | some due =>
    obtain ⟨i, wake⟩ := due
    exact ⟨_, rfl, Or.inr (h.act remote hcurrent)⟩
  | none =>
    cases hready : t.ready with
    | nil => exact h.endRound hcurrent (Or.inl hready)
    | cons e ready =>
      simp only
      split
      · have htaken := h.take hcurrent hready
        rw [hcurrent] at htaken
        exact ⟨_, rfl, Or.inr htaken⟩
      · rename_i hturns
        refine h.endRound hcurrent (Or.inr ?_)
        unfold Turn.roundLength at hturns
        omega

/-- Nothing happens any more when the caller has left. -/
theorem go_of_departed (remote : Remote σ) (limits : Limits) (horizon : Option Nat) (fuel : Nat)
    (h : t.caller.departure.isSome = true) : t.go remote limits horizon fuel = t := by
  cases fuel with
  | zero => rfl
  | succ fuel =>
    unfold go Timeline.next?
    rw [if_pos h]

/-- **An orderly timeline goes on until the caller has been served**, if as much may happen as there
is to do. -/
theorem Orderly.go (remote : Remote σ) (fuel : Nat) (h : t.Orderly limits bound)
    (hload : t.load < fuel) : (t.go remote limits none fuel).caller.departure = some .served := by
  induction fuel generalizing t with
  | zero => exact absurd hload (Nat.not_lt_zero _)
  | succ fuel ih =>
    obtain ⟨t', hnext, hserved | ⟨hlaid, hless⟩⟩ := h.next? remote
    · unfold Timeline.go
      rw [hnext]
      simp only
      rw [go_of_departed remote limits none fuel (by rw [hserved]; rfl)]
      exact hserved
    · unfold Timeline.go
      rw [hnext]
      exact ih hlaid (by omega)

/-! ## The beginning -/

end Timeline

/-- No task has begun. -/
def Run.Unbegun (r : Run) : Prop := ∀ task ∈ r.tasks, ∃ queue, task = .waiting queue

/-- Each task that has not begun has the moves to begin and to end before it. -/
theorem Run.Unbegun.length_le_work {r : Run} (h : r.Unbegun) : 2 * r.tasks.length ≤ r.work := by
  obtain ⟨batch, tasks, places⟩ := r
  unfold Unbegun at h
  unfold work
  simp only at h ⊢
  induction tasks with
  | nil => exact Nat.le_refl _
  | cons task tasks ih =>
    obtain ⟨⟨queue, rfl⟩, htasks⟩ := List.forall_mem_cons.mp h
    have hrest := ih htasks
    have hwork : 2 ≤ (Task.waiting queue).work := Nat.le_add_right _ _
    rw [List.length_cons, List.foldr_cons]
    omega

theorem Run.unbegun_ofActions (config : Config) (actions : List Action) :
    (ofActions config actions).Unbegun := by
  intro task htask
  obtain ⟨q, -, rfl⟩ := List.mem_map.mp htask
  exact ⟨q.actions, rfl⟩

namespace Timeline

/-- A turn of the caller adds no more to the load than its next one. -/
theorem load_callerTurn (t : Timeline σ) : (t.callerTurn none).load ≤ t.load + 1 := by
  have hup : ∀ b : Bool, b.toNat ≤ 1 := Bool.toNat_le
  unfold Timeline.callerTurn load
  simp only
  split
  · simp only [Bool.toNat_false]
    omega
  · split
    · simp only [Bool.toNat_false]
      omega
    · have := hup (t.caller.turn.waits - min ((t.run.tasks.drop t.caller.awaited).takeWhile
        Task.isEnded).length t.caller.turn.waits == 0)
      simp only
      omega

/-- The timeline of a sync before its caller takes a turn. -/
def outset (turn : Turn) (run : Run) (shared : Shared σ) : Timeline σ where
  now := 0
  current := none
  turn := .full
  turns := 0
  ready := List.replicate turn.ahead (stray run) ++
    (List.range run.tasks.length).map fun i => ⟨i, .proceed, 0⟩
  resting := []
  timers := []
  line := []
  deadlines := []
  caller := ⟨0, turn, true, none⟩
  run
  shared

theorem start_eq (horizon : Option Nat) (turn : Turn) (run : Run) (shared : Shared σ) :
    start horizon turn run shared = (outset turn run shared).callerTurn horizon := rfl

section Outset

variable {run : Run}

theorem laid_outset (limits : Limits) (turn : Turn) (shared : Shared σ)
    (hplaces : run.PlacesKept bound) (hwaiting : run.Unbegun) :
    (outset turn run shared).Laid limits bound := by
  have hplanned : (outset turn run shared).planned =
      List.replicate turn.ahead (run.tasks.length, .proceed) ++
        (List.range run.tasks.length).map fun i => (i, .proceed) := by
    simp [planned, upcoming, coming, outset, stray, Entry.due, Function.comp_def]
  refine ⟨hplaces, ?_, ?_, fun i hi => absurd hi List.not_mem_nil, fun h => absurd rfl h, ?_,
    fun h => absurd rfl h⟩
  · intro i task htask
    obtain ⟨queue, rfl⟩ := hwaiting task (List.mem_of_getElem? htask)
    have hlt : i < run.tasks.length := (List.getElem?_eq_some_iff.mp htask).1
    rw [hplanned]
    simp [List.count_append, List.count_replicate, Function.comp_def, List.count_range, hlt,
      Nat.ne_of_gt hlt, Task.isEnded]
  · intro i hi
    rw [hplanned] at hi
    simp at hi
  · rintro i wake ⟨⟩

theorem load_outset (turn : Turn) (shared : Shared σ) (hwaiting : run.Unbegun) :
    (outset turn run shared).load + 1 < events turn.ahead run := by
  have hwork := hwaiting.length_le_work
  unfold events
  simp [load, outset, stray, Entry.load, Function.comp_def, List.map_const']
  omega

end Outset

/-- **A sync without a horizon is served.** -/
theorem complete_served (remote : Remote σ) (limits : Limits) (turn : Turn) {run : Run}
    (shared : Shared σ) (hplaces : run.PlacesKept bound)
    (hwaiting : ∀ task ∈ run.tasks, ∃ queue, task = Task.waiting queue) :
    (complete remote limits none turn run shared).caller.departure = some .served := by
  have hlaid := laid_outset limits turn shared hplaces hwaiting
  have hload := load_outset turn shared hwaiting
  have hturn := load_callerTurn (outset turn run shared)
  unfold complete
  rw [start_eq]
  rcases hlaid.callerTurn (Nat.zero_le _) with hserved | ⟨horderly, -⟩
  · rw [go_of_departed remote limits none _ (by rw [hserved]; rfl)]
    exact hserved
  · exact horderly.go remote _ (by omega)

end Timeline

/-! ## Syncs -/

namespace Syncer

variable {s : Syncer σ} {config : Config} {actions : List Action}

/-- A sync that is admitted runs in virtual time and frees its place. -/
theorem sync_of_idle (remote : Remote σ) (horizon : Option Nat) (turn : Turn)
    (hidle : s.flight = .idle) (hbound : config.topicsAtATime ≤ mostPlaces) :
    let t := Timeline.complete remote config.limits horizon turn (Run.ofActions config actions)
      ⟨.ofBatch actions.length, s.shared.remote⟩
    s.sync remote config horizon actions turn =
      ⟨if t.caller.departure = some .served then .report t.run.report else .dropped, t.now,
        t.caller.turn, ⟨.idle, t.shared, s.live⟩⟩ := by
  unfold sync
  rw [request_of_idle config actions hidle hbound]
  unfold conclude
  simp only [List.getElem?_concat_length]
  unfold finish
  simp only
  rw [List.eraseIdx_append_of_length_le (Nat.le_refl _), Nat.sub_self]
  simp only [List.eraseIdx_cons_zero, List.append_nil]
  rfl

/-- A sync in virtual time returns what the moves of the timeline lead to. -/
theorem serves_of_complete (turn : Turn) (hidle : s.flight = .idle)
    (hbound : config.topicsAtATime ≤ mostPlaces) {moves : List Move}
    (hmoves :
      let t := Timeline.complete remote config.limits none turn (Run.ofActions config actions)
        ⟨.ofBatch actions.length, s.shared.remote⟩
      Run.follow? remote config.limits moves
        (Run.ofActions config actions, ⟨.ofBatch actions.length, s.shared.remote⟩) =
          some (t.run, t.shared)) :
    let t := Timeline.complete remote config.limits none turn (Run.ofActions config actions)
      ⟨.ofBatch actions.length, s.shared.remote⟩
    s.Serves remote config actions moves t.run t.shared ∧
      (s.sync remote config none actions turn).result = .report t.run.report ∧
      (s.sync remote config none actions turn).state = ⟨.idle, t.shared, s.live⟩ := by
  have hserved := Timeline.complete_served remote config.limits turn
    ⟨.ofBatch actions.length, s.shared.remote⟩ (Run.placesKept_ofActions config actions)
    (Run.unbegun_ofActions config actions)
  obtain ⟨-, -, hdone⟩ := Timeline.complete_follows remote config.limits none turn
    (Run.ofActions config actions) ⟨.ofBatch actions.length, s.shared.remote⟩
  rw [sync_of_idle remote none turn hidle hbound]
  refine ⟨⟨⟨?_, Run.ofActions config actions, ?_, ?_⟩, hdone hserved⟩, ?_, rfl⟩
  · rw [request_of_idle config actions hidle hbound]
  · rw [request_of_idle config actions hidle hbound]
    exact List.getElem?_concat_length
  · rw [request_of_idle config actions hidle hbound]
    exact hmoves
  · simp only [hserved, if_true]

/-- **A sync in virtual time returns** what one of its schedules leads to, whatever the remote
system answers, and the next one can be admitted. -/
theorem sync_serves (remote : Remote σ) (turn : Turn) (hidle : s.flight = .idle)
    (hbound : config.topicsAtATime ≤ mostPlaces) :
    ∃ moves run shared, s.Serves remote config actions moves run shared ∧
      (s.sync remote config none actions turn).result = .report run.report ∧
      (s.sync remote config none actions turn).state = ⟨.idle, shared, s.live⟩ := by
  obtain ⟨moves, hmoves, -⟩ := Timeline.complete_follows remote config.limits none turn
    (Run.ofActions config actions) ⟨.ofBatch actions.length, s.shared.remote⟩
  exact ⟨moves, _, _, serves_of_complete turn hidle hbound hmoves⟩

end Syncer
end Outbox
