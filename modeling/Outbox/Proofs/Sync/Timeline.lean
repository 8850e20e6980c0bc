import Outbox.Proofs.Remote.Limit
import Outbox.Proofs.Sync.Schedule
import Outbox.Sync.Timeline
import Mathlib.Data.List.TakeWhile

/-!
# Virtual time makes a schedule

A timeline chooses the moves of a run and nothing else, so a run in virtual time is one of the
schedules of the run:

* `Timeline.Replanned`: what is planned for later moves no task.
* `Timeline.complete_follows`: what happens are the moves of a schedule, and a caller that was
  served left a run that was done.
-/

namespace Outbox

variable {σ : Type} {remote : Remote σ} {limits : Limits}

/-- The task that makes a move. -/
def Move.task : Move → Nat
  | .start i => i
  | .advance i => i
  | .expire i => i

/-- A move replaces a task that has not ended by one that is active or has ended. -/
theorem Run.step?_set {r : Run} {shared : Shared σ} {move : Move} {next : Run × Shared σ}
    (h : r.step? remote limits shared move = some next) :
    ∃ before after, r.tasks[move.task]? = some before ∧ before.isEnded = false ∧
      (after.isActive = true ∨ after.isEnded = true) ∧
      next.1.tasks = r.tasks.set move.task after := by
  cases move with
  | start i =>
    obtain ⟨queue, htask, -, rfl⟩ := step?_start.mp h
    exact ⟨_, _, htask, rfl, Or.inl rfl, rfl⟩
  | advance i =>
    obtain ⟨task, stride, t, htask, hstep, rfl⟩ := step?_advance.mp h
    obtain ⟨hactive, hafter⟩ := (Task.Advances.of_advance? hstep).isActive
    exact ⟨task, stride.task, htask, Task.isEnded_of_active hactive, hafter, rfl⟩
  | expire i =>
    obtain ⟨task, stride, htask, hstep, rfl⟩ := step?_expire.mp h
    obtain ⟨hactive, hafter⟩ := (Task.Expires.of_expire? hstep).isActive
    exact ⟨task, stride.task, htask, Task.isEnded_of_active hactive, Or.inl hafter, rfl⟩

/-- The first tasks of a run have ended. -/
def Run.EndedBefore (bound : Nat) (r : Run) : Prop :=
  ∀ i < bound, ∃ task, r.tasks[i]? = some task ∧ task.isEnded = true

/-- A task that has ended stays as it is. -/
theorem Run.EndedBefore.step? {r : Run} {bound : Nat} (hr : r.EndedBefore bound)
    {shared : Shared σ} {move : Move} {next : Run × Shared σ}
    (h : r.step? remote limits shared move = some next) : next.1.EndedBefore bound := by
  obtain ⟨before, after, hbefore, hgoing, -, htasks⟩ := step?_set h
  intro i hi
  obtain ⟨task, htask, hended⟩ := hr i hi
  have hne : move.task ≠ i := by
    rintro rfl
    rw [htask] at hbefore
    cases hbefore
    rw [hended] at hgoing
    cases hgoing
  refine ⟨task, ?_, hended⟩
  rw [htasks, List.getElem?_set_ne hne]
  exact htask

theorem Run.EndedBefore.isDone {r : Run} (h : r.EndedBefore r.tasks.length) : r.isDone = true := by
  refine List.all_eq_true.mpr fun task hmem => ?_
  obtain ⟨i, htask⟩ := List.mem_iff_getElem?.mp hmem
  obtain ⟨task', htask', hended⟩ := h i (List.getElem?_eq_some_iff.mp htask).1
  rw [htask'] at htask
  cases htask
  exact hended

/-- The tasks that have ended in a row come after those that had ended before. -/
theorem Run.EndedBefore.extend {r : Run} {bound count : Nat} (h : r.EndedBefore bound)
    (hcount : count ≤ ((r.tasks.drop bound).takeWhile Task.isEnded).length) :
    r.EndedBefore (bound + count) := by
  intro i hi
  by_cases hbound : i < bound
  · exact h i hbound
  · obtain ⟨j, rfl⟩ := Nat.exists_eq_add_of_le (Nat.le_of_not_lt hbound)
    have hj : j < ((r.tasks.drop bound).takeWhile Task.isEnded).length := by omega
    have hmem := List.getElem_mem hj
    refine ⟨_, ?_, List.mem_takeWhile_imp hmem⟩
    have hprefix := List.takeWhile_prefix (l := r.tasks.drop bound) Task.isEnded
    rw [← List.getElem?_drop, hprefix.getElem hj, List.getElem?_eq_getElem]

namespace Timeline

/-- The caller knows what it says: the tasks before the one that it waits for have ended, and all
tasks have when it was served. -/
structure Attended (t : Timeline σ) : Prop where
  ended : t.run.EndedBefore t.caller.awaited
  served : t.caller.departure = some .served → t.run.isDone = true

/-- Only what is planned and the caller differ. -/
structure Replanned (t t' : Timeline σ) : Prop where
  run : t'.run = t.run
  shared : t'.shared = t.shared
  attended : t.Attended → t'.Attended

theorem Replanned.refl (t : Timeline σ) : t.Replanned t := ⟨rfl, rfl, id⟩

theorem Replanned.trans {t t' t'' : Timeline σ} (h : t.Replanned t') (h' : t'.Replanned t'') :
    t.Replanned t'' :=
  ⟨h'.run.trans h.run, h'.shared.trans h.shared, h'.attended ∘ h.attended⟩

/-- The caller takes note of what has ended. -/
theorem Replanned.callerTurn (t : Timeline σ) (horizon : Option Nat) :
    t.Replanned (t.callerTurn horizon) where
  run := rfl
  shared := rfl
  attended h := by
    have hended := h.ended.extend (Nat.min_le_left _ t.caller.turn.waits)
    unfold Timeline.callerTurn
    simp only
    split
    · rename_i hall
      refine ⟨hended, fun _ => ?_⟩
      simp only at hended ⊢
      rw [hall] at hended
      exact hended.isDone
    · split
      · exact ⟨hended, nofun⟩
      · exact ⟨hended, nofun⟩

/-- A change of plans that the caller has no part in. -/
theorem Replanned.of_eq {t t' : Timeline σ} (hrun : t'.run = t.run) (hshared : t'.shared = t.shared)
    (hawaited : t'.caller.awaited = t.caller.awaited)
    (hdeparture : t'.caller.departure = t.caller.departure) : t.Replanned t' where
  run := hrun
  shared := hshared
  attended h := ⟨by rw [hrun, hawaited]; exact h.ended, by rw [hrun, hdeparture]; exact h.served⟩

theorem Replanned.take (t : Timeline σ) (e : Entry) : t.Replanned (t.take e) := by
  unfold Timeline.take
  simp only
  split
  · exact .of_eq rfl rfl rfl rfl
  · split
    · split
      · exact .of_eq rfl rfl rfl rfl
      · exact .of_eq rfl rfl rfl rfl
    · exact .of_eq rfl rfl rfl rfl

theorem Replanned.of_await {t t' : Timeline σ} {horizon : Option Nat}
    (h : t.await horizon = some t') : t.Replanned t' := by
  have hjump : ∀ time, t.Replanned (t.jump time) := fun time => .of_eq rfl rfl rfl rfl
  have hleave : ∀ time, t.Replanned ({ t with now := time }.callerTurn horizon) := by
    intro time
    have htime : t.Replanned { t with now := time } := .of_eq rfl rfl rfl rfl
    exact htime.trans (.callerTurn _ horizon)
  unfold await at h
  split at h
  · cases h
  · cases h
    exact hleave _
  · cases h
    exact hjump _
  · cases h
    split
    · exact hleave _
    · exact hjump _

theorem Replanned.of_endRound {t t' : Timeline σ} {horizon : Option Nat}
    (h : t.endRound horizon = some t') : t.Replanned t' := by
  have hround : t.Replanned { t with turns := 0, ready := t.ready ++ t.resting, resting := [] } :=
    .of_eq rfl rfl rfl rfl
  unfold endRound at h
  simp only at h
  split at h
  · cases h
    exact hround.trans (.callerTurn _ _)
  · split at h
    · exact hround.trans (.of_await h)
    · cases h
      exact hround

theorem Replanned.waitFor (t : Timeline σ) (i : Nat) (delay left : Option Nat) :
    t.Replanned (t.waitFor i delay left) := by
  unfold Timeline.waitFor
  simp only
  split
  · exact .of_eq rfl rfl rfl rfl
  · split
    · exact .of_eq rfl rfl rfl rfl
    · exact .of_eq rfl rfl rfl rfl

theorem Replanned.beginCalls (t : Timeline σ) (limits : Limits) (i : Nat) :
    t.Replanned (t.beginCalls limits i) := by
  unfold Timeline.beginCalls
  simp only
  split
  · exact .of_eq rfl rfl rfl rfl
  · exact .of_eq rfl rfl rfl rfl

theorem Replanned.plan (t : Timeline σ) (limits : Limits) (i : Nat) :
    t.Replanned (t.plan limits i) := by
  unfold Timeline.plan
  split
  · exact .of_eq rfl rfl rfl rfl
  · exact .waitFor t i _ _
  · exact .waitFor t i _ _
  · exact .of_eq rfl rfl rfl rfl
  · exact .of_eq rfl rfl rfl rfl

/-! ## Moves -/

/-- The moves of a schedule lead from one timeline to another. -/
def Follows (remote : Remote σ) (limits : Limits) (t t' : Timeline σ) : Prop :=
  ∃ moves, Run.follow? remote limits moves (t.run, t.shared) = some (t'.run, t'.shared)

theorem Replanned.follows {t t' : Timeline σ} (h : t.Replanned t') :
    t.Follows remote limits t' := ⟨[], by rw [h.run, h.shared]; rfl⟩

theorem act_follows {t : Timeline σ} (h : t.Attended) (hhere : t.caller.departure = none) (i : Nat)
    (wake : Wake) :
    (t.act remote limits i wake).Attended ∧
      t.Follows remote limits (t.act remote limits i wake) := by
  unfold act
  split
  · have hidle : t.Replanned { t with current := none } := .of_eq rfl rfl rfl rfl
    exact ⟨hidle.attended h, hidle.follows⟩
  · rename_i run shared hmove
    simp only
    have hmoved : ({ t with run, shared } : Timeline σ).Attended :=
      ⟨h.ended.step? hmove, by rw [hhere]; exact nofun⟩
    have hplanned (t' : Timeline σ) (h' : ({ t with run, shared } : Timeline σ).Replanned t') :
        (t'.plan limits i).Attended ∧ t.Follows remote limits (t'.plan limits i) := by
      have hall := h'.trans (.plan t' limits i)
      refine ⟨hall.attended hmoved, [t.moveOf i wake], ?_⟩
      rw [Run.follow?_cons]
      exact ⟨(run, shared), hmove, by rw [hall.run, hall.shared]; rfl⟩
    split
    · exact hplanned _ (.beginCalls _ limits i)
    · exact hplanned _ (.refl _)

theorem next?_follows {t t' : Timeline σ} {horizon : Option Nat} (h : t.Attended)
    (hnext : t.next? remote limits horizon = some t') :
    t'.Attended ∧ t.Follows remote limits t' := by
  have hplans : t.Replanned t' → t'.Attended ∧ t.Follows remote limits t' := fun h' =>
    ⟨h'.attended h, h'.follows⟩
  unfold next? at hnext
  split at hnext
  · cases hnext
  · rename_i hhere
    -- The caller is still here, so a move cannot make its report stale.
    have hhere : t.caller.departure = none := by simpa using hhere
    split at hnext
    · cases hnext
      exact act_follows h hhere _ _
    · exact hplans (.of_endRound hnext)
    · split at hnext
      · rename_i e ready _ _ _
        cases hnext
        have hready : t.Replanned { t with ready } := .of_eq rfl rfl rfl rfl
        exact hplans (hready.trans (.take _ e))
      · exact hplans (.of_endRound hnext)

/-- **What happens in virtual time is a schedule**, and the caller leaves with a report only when
the run is done. -/
theorem go_follows (remote : Remote σ) (limits : Limits) (horizon : Option Nat) (fuel : Nat)
    {t : Timeline σ} (h : t.Attended) :
    (go remote limits horizon fuel t).Attended ∧
      t.Follows remote limits (go remote limits horizon fuel t) := by
  induction fuel generalizing t with
  | zero => exact ⟨h, (Replanned.refl t).follows⟩
  | succ fuel ih =>
    unfold go
    cases hnext : t.next? remote limits horizon with
    | none => exact ⟨h, (Replanned.refl t).follows⟩
    | some next =>
      obtain ⟨hattended, moves, hmoves⟩ := next?_follows h hnext
      obtain ⟨hlater, more, hmore⟩ := ih hattended
      refine ⟨hlater, moves ++ more, ?_⟩
      exact Run.follow?_append hmoves hmore

/-- The timeline of a sync that its caller has just begun. -/
theorem start_attended (horizon : Option Nat) (turn : Turn) (run : Run) (shared : Shared σ) :
    (start horizon turn run shared).Attended := by
  unfold start
  refine (Replanned.callerTurn _ horizon).attended ⟨?_, nofun⟩
  exact fun i hi => absurd hi (Nat.not_lt_zero i)

/-- **A run in virtual time is one of its schedules**, and whoever is served got a run that is
done. -/
theorem complete_follows (remote : Remote σ) (limits : Limits) (horizon : Option Nat) (turn : Turn)
    (run : Run) (shared : Shared σ) :
    ∃ moves, Run.follow? remote limits moves (run, shared) =
        some ((complete remote limits horizon turn run shared).run,
          (complete remote limits horizon turn run shared).shared) ∧
      ((complete remote limits horizon turn run shared).caller.departure = some .served →
        (complete remote limits horizon turn run shared).run.isDone = true) := by
  obtain ⟨hattended, moves, hmoves⟩ := go_follows remote limits horizon (events turn.ahead run)
    (start_attended horizon turn run shared)
  exact ⟨moves, hmoves, hattended.served⟩

end Timeline
end Outbox
