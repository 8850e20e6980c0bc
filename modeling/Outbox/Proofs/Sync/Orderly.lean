import Outbox.Proofs.Sync.Timeline
import Mathlib.Algebra.Ring.Nat

/-!
# What a timeline has planned

A timeline has planned one turn, one wait or one place in line for each task that has not ended
(`Timeline.Laid`), and its caller takes a turn when the task that it waits for has ended
(`Timeline.Orderly`). So a timeline in order is never at a loss for what happens next: while the
caller waits, some task goes on of itself, and those in line go on when another one has ended.
Turns and rounds keep the order, and each takes something off the load (`Timeline.load`).

* `Timeline.Orderly.take`: a task that can go on has its turn, waits, or stands in line.
* `Timeline.Orderly.exists_upcoming`: while the caller waits, some task goes on of itself.
* `Timeline.Orderly.endRound`: a round ends with the caller served, or with a new round in order.
-/

namespace Outbox

variable {σ : Type} {remote : Remote σ} {limits : Limits} {bound i : Nat} {wake : Wake}

/-- The task that has a turn, and how it goes on. -/
def Entry.due (e : Entry) : Nat × Wake := (e.task, e.wake)

/-- The task that waits, and how it goes on. -/
def Timer.due (timer : Timer) : Nat × Wake := (timer.task, timer.wake)

/-- What a turn takes off the load: a wait is left, or the task has its turn at once. -/
def Entry.load (e : Entry) : Nat := if 0 < e.pause then 6 else 3

namespace Timeline

/-! ## What is planned -/

/-- The tasks that will go on of themselves, without the one whose turn it is. -/
def coming (t : Timeline σ) : List (Nat × Wake) :=
  t.ready.map Entry.due ++ t.resting.map Entry.due ++ t.timers.map Timer.due

/-- The tasks that go on of themselves. -/
def upcoming (t : Timeline σ) : List (Nat × Wake) := t.current.toList ++ t.coming

/-- All tasks that are planned for; those in line go on when another task has ended. -/
def planned (t : Timeline σ) : List (Nat × Wake) :=
  t.upcoming ++ t.line.map fun i => (i, .proceed)

/-- The plan is laid out for the run. -/
structure Laid (limits : Limits) (bound : Nat) (t : Timeline σ) : Prop where
  places : t.run.PlacesKept bound
  /-- A task that has not ended is planned for once. -/
  once : ∀ i task, t.run.tasks[i]? = some task →
    (t.planned.map Prod.fst).count i = (!task.isEnded).toNat
  /-- Who is to give up can do so. -/
  givesUp : ∀ i, (i, Wake.giveUp) ∈ t.planned →
    ∃ task, t.run.tasks[i]? = some task ∧ (task.expire? limits).isSome = true
  inLine : ∀ i ∈ t.line, t.isWaiting i = true
  /-- Nobody stands in line for a task that does not go on. -/
  moving : t.line ≠ [] → ∃ i task wake, t.run.tasks[i]? = some task ∧ (i, wake) ∈ t.upcoming
  /-- A task that is about to begin has a place. -/
  placed : ∀ i wake, t.current = some (i, wake) → t.isWaiting i = true → t.run.hasPlace = true
  limited : t.deadlines ≠ [] → limits.delivery.isSome = true

/-- The plan is laid out, and the caller waits for a task. -/
structure Orderly (limits : Limits) (bound : Nat) (t : Timeline σ) : Prop
    extends t.Laid limits bound where
  here : t.caller.departure = none
  /-- The next turn of the caller is not used up. -/
  fresh : t.caller.turn.waits ≠ 0
  awaits : t.caller.awaited < t.run.tasks.length
  /-- The caller takes a turn when the task that it waits for has ended. -/
  patient : t.caller.isUp = false →
    ∀ task, t.run.tasks[t.caller.awaited]? = some task → task.isEnded = false

/-- How much there is left to do: for every move a task may have a rest, a turn and a wait, and the
end of a task gets another one out of line and the caller to take a turn. -/
def load (t : Timeline σ) : Nat :=
  7 * t.run.work + t.current.toList.length + (t.ready.map Entry.load).sum +
    ((t.resting.map Entry.load).sum + t.resting.length) + 4 * t.timers.length + t.turns +
    t.caller.isUp.toNat + (t.run.tasks.length - t.caller.awaited)

variable {t t' : Timeline σ}

theorem isWaiting_congr (h : t'.run = t.run) (i : Nat) : t'.isWaiting i = t.isWaiting i := by
  unfold isWaiting
  rw [h]

theorem isWaiting_iff :
    t.isWaiting i = true ↔ ∃ queue, t.run.tasks[i]? = some (.waiting queue) := by
  unfold isWaiting
  constructor
  · intro h
    split at h
    · exact ⟨_, ‹_›⟩
    · cases h
  · rintro ⟨queue, h⟩
    rw [h]

/-- A plan may be laid out differently. -/
theorem Laid.replan (h : t.Laid limits bound) (hrun : t'.run = t.run)
    (hdeadlines : t'.deadlines = t.deadlines) (hplanned : t'.planned.Perm t.planned)
    (hline : ∀ i ∈ t'.line, t.isWaiting i = true)
    (hmoving : t'.line ≠ [] → ∃ i task wake, t.run.tasks[i]? = some task ∧
      (i, wake) ∈ t'.upcoming)
    (hplaced : ∀ i wake, t'.current = some (i, wake) → t.isWaiting i = true →
      t.run.hasPlace = true) : t'.Laid limits bound where
  places := hrun ▸ h.places
  once i task htask := by
    rw [hrun] at htask
    rw [(hplanned.map Prod.fst).count_eq]
    exact h.once i task htask
  givesUp i hi := by
    rw [hrun]
    exact h.givesUp i (hplanned.mem_iff.mp hi)
  inLine i hi := by
    rw [isWaiting_congr hrun]
    exact hline i hi
  moving hne := by
    rw [hrun]
    exact hmoving hne
  placed i wake hcurrent hwaiting := by
    rw [isWaiting_congr hrun] at hwaiting
    rw [hrun]
    exact hplaced i wake hcurrent hwaiting
  limited := hdeadlines ▸ h.limited

/-- What goes on of itself may be laid out differently. -/
theorem Laid.rearrange (h : t.Laid limits bound) (hrun : t'.run = t.run)
    (hdeadlines : t'.deadlines = t.deadlines) (hline : t'.line = t.line)
    (hupcoming : t'.upcoming.Perm t.upcoming)
    (hplaced : ∀ i wake, t'.current = some (i, wake) → t.isWaiting i = true →
      t.run.hasPlace = true) : t'.Laid limits bound := by
  have hplanned : t'.planned.Perm t.planned := by
    unfold planned
    rw [hline]
    exact hupcoming.append_right _
  refine h.replan hrun hdeadlines hplanned (fun i hi => h.inLine i (hline ▸ hi)) (fun hne => ?_)
    hplaced
  obtain ⟨i, task, wake, htask, hmem⟩ := h.moving (hline ▸ hne)
  exact ⟨i, task, wake, htask, hupcoming.mem_iff.mpr hmem⟩

/-- The plan of an orderly timeline may be laid out differently. -/
theorem Orderly.with (h : t.Orderly limits bound) (hlaid : t'.Laid limits bound)
    (hrun : t'.run = t.run) (hcaller : t'.caller = t.caller) : t'.Orderly limits bound where
  toLaid := hlaid
  here := hcaller ▸ h.here
  fresh := hcaller ▸ h.fresh
  awaits := by
    rw [hrun, hcaller]
    exact h.awaits
  patient := by
    rw [hrun, hcaller]
    exact h.patient

/-! ## Turns -/

/-- While nobody has a turn, a task in line is kept from its place by a task that goes on. -/
theorem Laid.exists_active (h : t.Laid limits bound) (hcurrent : t.current = none)
    (hplace : t.run.hasPlace = false) : ∃ i task wake, t.run.tasks[i]? = some task ∧
      task.isActive = true ∧ (i, wake) ∈ t.coming := by
  have hfree : t.run.places = some 0 := by
    unfold Run.hasPlace at hplace
    simpa using hplace
  obtain ⟨hbound, hsum⟩ := h.places 0 hfree
  obtain ⟨task, hmem, hactive⟩ : ∃ task ∈ t.run.tasks, task.isActive = true :=
    List.countP_pos_iff.mp (by unfold Run.active at hsum; omega)
  obtain ⟨i, htask⟩ := List.mem_iff_getElem?.mp hmem
  have hcount := h.once i task htask
  rw [Task.isEnded_of_active hactive] at hcount
  have hplanned : i ∈ t.planned.map Prod.fst :=
    List.count_pos_iff.mp (by rw [hcount]; exact Nat.zero_lt_one)
  obtain ⟨⟨j, wake⟩, hmem, rfl⟩ := List.mem_map.mp hplanned
  rcases List.mem_append.mp hmem with hmem | hmem
  · unfold upcoming at hmem
    rw [hcurrent] at hmem
    exact ⟨j, task, wake, htask, hactive, hmem⟩
  · -- Who stands in line has not begun.
    obtain ⟨k, hk, hkj⟩ := List.mem_map.mp hmem
    cases hkj
    obtain ⟨queue, hwaiting⟩ := isWaiting_iff.mp (h.inLine j hk)
    rw [htask] at hwaiting
    cases hwaiting
    cases hactive

/-- A task that has not begun stands in line if there is no place. -/
theorem Laid.stands (h : t.Laid limits bound) (hcurrent : t.current = none) {e : Entry}
    {ready : List Entry} (hready : t.ready = e :: ready) (hwaiting : t.isWaiting e.task = true)
    (hplace : t.run.hasPlace = false) (turns : Nat) :
    Laid limits bound { t with ready, turns, line := t.line ++ [e.task] } := by
  obtain ⟨queue, htask⟩ := isWaiting_iff.mp hwaiting
  have hupcoming : t.upcoming = e.due :: { t with ready }.upcoming := by
    simp [upcoming, coming, hcurrent, hready]
  have hdue : e.due = (e.task, .proceed) := by
    unfold Entry.due
    cases hwake : e.wake with
    | proceed => rfl
    | giveUp =>
      -- There is nothing to give up before the beginning.
      have hmem : (e.task, Wake.giveUp) ∈ t.planned := by
        unfold planned
        rw [hupcoming, Entry.due, hwake]
        exact List.mem_cons_self
      obtain ⟨task, htask', hexpire⟩ := h.givesUp _ hmem
      rw [htask] at htask'
      cases htask'
      cases hexpire
  refine h.replan rfl rfl ?_ ?_ (fun _ => ?_) ?_
  · have hplanned : t.planned = e.due :: { t with ready }.planned := by
      unfold planned
      rw [hupcoming]
      rfl
    rw [hplanned, hdue]
    unfold planned
    simp only [List.map_append, List.map_cons, List.map_nil]
    rw [← List.append_assoc]
    exact List.perm_append_comm
  · intro i hi
    rcases List.mem_append.mp hi with hi | hi
    · exact h.inLine i hi
    · rwa [List.mem_singleton.mp hi]
  · obtain ⟨i, task, wake, htask', hactive, hmem⟩ := h.exists_active hcurrent hplace
    refine ⟨i, task, wake, htask', ?_⟩
    have hmem : (i, wake) ∈ t.upcoming := List.mem_append_right _ hmem
    rw [hupcoming] at hmem
    rcases List.mem_cons.mp hmem with heq | hmem
    · rw [hdue] at heq
      cases heq
      rw [htask] at htask'
      cases htask'
      cases hactive
    · exact hmem
  · rintro i wake hsome
    rw [hcurrent] at hsome
    cases hsome

/-- **A task that can go on has its turn**, waits, or stands in line. -/
theorem Orderly.take (h : t.Orderly limits bound) (hcurrent : t.current = none) {e : Entry}
    {ready : List Entry} (hready : t.ready = e :: ready) :
    ({ t with ready }.take e).Orderly limits bound ∧ ({ t with ready }.take e).load < t.load := by
  have hlaid := h.toLaid
  have hwaits : ∀ i, ({ t with ready, turns := t.turns + 1 } : Timeline σ).isWaiting i =
      t.isWaiting i := isWaiting_congr rfl
  have hturn (turn : Turn) (hplaced : t.isWaiting e.task = true → t.run.hasPlace = true) :
      Orderly limits bound
        { t with ready, turns := t.turns + 1, current := some (e.task, e.wake), turn } := by
    refine h.with (hlaid.rearrange rfl rfl rfl ?_ ?_) rfl rfl
    · simp [upcoming, coming, hcurrent, hready, Entry.due]
    · rintro i wake ⟨⟩ hwaiting
      exact hplaced hwaiting
  unfold Timeline.take
  simp only [hwaits]
  split
  · rename_i hpause
    refine ⟨h.with (hlaid.rearrange rfl rfl rfl ?_ ?_) rfl rfl, ?_⟩
    · refine List.perm_iff_count.mpr fun d => ?_
      simp [upcoming, coming, hcurrent, hready, List.count_append, List.count_cons, Entry.due,
        Timer.due]
      omega
    · simp [hcurrent]
    · simp [load, hcurrent, hready, Entry.load, hpause]
      omega
  · rename_i hpause
    split
    · rename_i hwaiting
      split
      · rename_i hplace
        refine ⟨hturn _ fun _ => hplace, ?_⟩
        simp [load, hcurrent, hready, Entry.load, hpause]
        omega
      · rename_i hplace
        refine ⟨h.with (hlaid.stands hcurrent hready hwaiting (Bool.not_eq_true _ ▸ hplace) _)
          rfl rfl, ?_⟩
        simp [load, hcurrent, hready, Entry.load, hpause]
        omega
    · rename_i hwaiting
      refine ⟨hturn _ fun h => absurd h hwaiting, ?_⟩
      simp [load, hcurrent, hready, Entry.load, hpause]
      omega

/-! ## Rounds -/

theorem getElem?_length_takeWhile {α : Type} {p : α → Bool} {l : List α} {x : α}
    (h : l[(l.takeWhile p).length]? = some x) : p x = false := by
  induction l with
  | nil => cases h
  | cons a l ih =>
    by_cases hp : p a = true
    · rw [List.takeWhile_cons_of_pos hp] at h
      exact ih h
    · rw [List.takeWhile_cons_of_neg hp] at h
      cases h
      exact Bool.not_eq_true _ ▸ hp

/-- **The caller is served, or waits for a task that has not ended** or for its next turn. -/
theorem Laid.callerTurn (h : t.Laid limits bound)
    (hawaits : t.caller.awaited ≤ t.run.tasks.length) :
    (t.callerTurn none).caller.departure = some .served ∨
      (t.callerTurn none).Orderly limits bound ∧ (t.caller.turn.waits ≠ 0 →
        t.caller.isUp = true → (t.callerTurn none).load < t.load) := by
  have hprefix := List.takeWhile_prefix (l := t.run.tasks.drop t.caller.awaited) Task.isEnded
  have hended := hprefix.length_le
  rw [List.length_drop] at hended
  have hnext : ∀ task, t.run.tasks[t.caller.awaited +
      ((t.run.tasks.drop t.caller.awaited).takeWhile Task.isEnded).length]? = some task →
      task.isEnded = false := by
    intro task htask
    rw [← List.getElem?_drop] at htask
    exact getElem?_length_takeWhile htask
  unfold Timeline.callerTurn
  generalize ((t.run.tasks.drop t.caller.awaited).takeWhile Task.isEnded).length = ended at *
  simp only
  split
  · exact Or.inl rfl
  · rename_i hsome
    rw [if_neg (by simp)]
    have hmin := Nat.min_le_left ended t.caller.turn.waits
    refine Or.inr ⟨⟨⟨h.places, h.once, h.givesUp, h.inLine, h.moving, h.placed, h.limited⟩, rfl,
      Nat.succ_ne_zero _, ?_, ?_⟩, fun hbefore hup => ?_⟩
    · simp only
      omega
    · -- A caller with waits left has waited for all that have ended.
      intro hup task htask
      simp only [beq_eq_false_iff_ne, ne_eq] at hup htask
      rw [Nat.min_eq_left (by omega)] at htask
      exact hnext task htask
    · simp only [load, hup]
      rcases hwaits : (t.caller.turn.waits - min ended t.caller.turn.waits == 0) with _ | _
      · simp only [Bool.toNat_false, Bool.toNat_true]
        omega
      · simp only [beq_iff_eq] at hwaits
        simp only [Bool.toNat_true]
        omega

/-- The time jumps to the end of a wait. -/
theorem Orderly.jump (h : t.Orderly limits bound) (hready : t.ready = []) {timer : Timer}
    (htimer : timer ∈ t.timers) :
    (t.jump timer.time).Orderly limits bound ∧ (t.jump timer.time).load < t.load := by
  have hsplit := List.filter_append_perm (fun other : Timer => other.time == timer.time) t.timers
  refine ⟨h.with (h.rearrange rfl rfl rfl ?_ h.placed) rfl rfl, ?_⟩
  · refine List.perm_iff_count.mpr fun d => ?_
    have hcount := (hsplit.map Timer.due).count_eq d
    rw [List.map_append, List.count_append] at hcount
    simp only [upcoming, coming, Timeline.jump, hready, List.map_map, List.count_append,
      List.map_nil, List.count_nil]
    change _ + (List.count d (List.map Timer.due _) + _ + List.count d (List.map Timer.due _)) = _
    simp only [bne]
    omega
  · have hlength := hsplit.length_eq
    rw [List.length_append] at hlength
    have hpos := List.length_pos_of_mem
      (List.mem_filter (p := fun other : Timer => other.time == timer.time) |>.mpr
        ⟨htimer, beq_self_eq_true timer.time⟩)
    simp only [load, Timeline.jump, hready, List.map_map, bne]
    simp [Function.comp_def, Entry.load, List.map_const']
    omega

/-- While the caller waits for a task, some task goes on of itself. -/
theorem Orderly.exists_upcoming (h : t.Orderly limits bound) (hup : t.caller.isUp = false) :
    t.upcoming ≠ [] := by
  intro hnone
  have hline : t.line = [] := by
    by_contra hline
    obtain ⟨i, task, wake, -, hmem⟩ := h.moving hline
    rw [hnone] at hmem
    cases hmem
  have htask := List.getElem?_eq_getElem h.awaits
  have hcount := h.once _ _ htask
  rw [h.patient hup _ htask] at hcount
  unfold planned at hcount
  rw [hnone, hline] at hcount
  cases hcount

/-- A timeline at the beginning of its next round. -/
def nextRound (t : Timeline σ) : Timeline σ :=
  { t with turns := 0, ready := t.ready ++ t.resting, resting := [] }

theorem endRound_eq (t : Timeline σ) (horizon : Option Nat) :
    t.endRound horizon =
      if t.nextRound.caller.isUp then some (t.nextRound.callerTurn horizon)
      else if t.nextRound.ready.isEmpty then t.nextRound.await horizon
      else some t.nextRound := rfl

theorem load_nextRound (t : Timeline σ) :
    t.nextRound.load + t.resting.length + t.turns = t.load := by
  simp [load, nextRound]
  omega

theorem Orderly.nextRound (h : t.Orderly limits bound) : t.nextRound.Orderly limits bound := by
  refine h.with (h.rearrange rfl rfl rfl ?_ h.placed) rfl rfl
  simp [upcoming, coming, Timeline.nextRound]

/-- Where no task is ready the time jumps, as some task waits. -/
theorem Orderly.await (h : t.Orderly limits bound) (hcurrent : t.current = none)
    (hready : t.ready = []) (hresting : t.resting = []) (hup : t.caller.isUp = false) :
    ∃ t', t.await none = some t' ∧ t'.Orderly limits bound ∧ t'.load < t.load := by
  unfold Timeline.await
  cases htime : (t.timers.map Timer.time).min? with
  | none =>
    rw [List.min?_eq_none_iff, List.map_eq_nil_iff] at htime
    refine absurd ?_ (h.exists_upcoming hup)
    unfold upcoming coming
    rw [hcurrent, hready, hresting, htime]
    rfl
  | some time =>
    obtain ⟨timer, htimer, rfl⟩ := List.mem_map.mp (List.min?_mem htime)
    exact ⟨_, rfl, h.jump hready htimer⟩

/-- **A round ends**, and there is less to do. -/
theorem Orderly.endRound (h : t.Orderly limits bound) (hcurrent : t.current = none)
    (hround : t.ready = [] ∨ 0 < t.turns) :
    ∃ t', t.endRound none = some t' ∧
      (t'.caller.departure = some .served ∨ t'.Orderly limits bound ∧ t'.load < t.load) := by
  have hload := load_nextRound t
  have horderly := h.nextRound
  rw [endRound_eq]
  split
  · rename_i hup
    refine ⟨_, rfl, ?_⟩
    rcases horderly.callerTurn (Nat.le_of_lt horderly.awaits) with hserved | ⟨hnext, hless⟩
    · exact Or.inl hserved
    · have := hless horderly.fresh hup
      exact Or.inr ⟨hnext, by omega⟩
  · rename_i hup
    split
    · rename_i hready
      obtain ⟨t', ht', hawaited, hless⟩ := horderly.await hcurrent (List.isEmpty_iff.mp hready) rfl
        (Bool.not_eq_true _ ▸ hup)
      exact ⟨t', ht', Or.inr ⟨hawaited, by omega⟩⟩
    · rename_i hready
      -- The round that ended had turns, or tasks that rested in it.
      have hless : 0 < t.resting.length + t.turns := by
        rcases hround with hnone | hturns
        · have hresting : t.resting ≠ [] := by
            intro hresting
            unfold Timeline.nextRound at hready
            rw [hnone, hresting] at hready
            exact hready rfl
          have := List.length_pos_iff.mpr hresting
          omega
        · omega
      exact ⟨_, rfl, Or.inr ⟨horderly, by omega⟩⟩

end Timeline
end Outbox
