import Outbox.Proofs.Sync.Return

/-!
# Answers that are there at once

A limit cuts off an answer that is waited for. Nobody waits for a remote system whose answers are
there at once, so in virtual time its answers are never cut off, whatever the limits are
(`Syncer.sync_serves_promptly`). And where no answer is cut off the limits have no part in what a
sync does (`Syncer.Serves.unlimited`).

* `NoneExpires`: no limit cuts off an answer in a schedule.
* `Remote.Prompt`: the answers are there at once.
* `Timeline.Prompt.next?`: nobody gives up, and nobody is planned to.
-/

namespace Outbox

variable {σ : Type} {remote : Remote σ} {limits : Limits} {I : σ → Prop}

/-! ## Schedules without a cut -/

/-- No limit cuts off an answer. -/
def NoneExpires (moves : List Move) : Prop := ∀ i, Move.expire i ∉ moves

theorem NoneExpires.append {moves more : List Move} (h : NoneExpires moves)
    (hmore : NoneExpires more) : NoneExpires (moves ++ more) := by
  intro i hi
  rcases List.mem_append.mp hi with hi | hi
  · exact h i hi
  · exact hmore i hi

/-- Without limits no answer is cut off. -/
theorem Run.noneExpires_of_follow? (hdelivery : limits.delivery = none)
    (hlookup : limits.lookup = none) {moves : List Move} {s s' : Run × Shared σ}
    (h : follow? remote limits moves s = some s') : NoneExpires moves := by
  induction moves generalizing s with
  | nil => exact fun i => List.not_mem_nil
  | cons move moves ih =>
    obtain ⟨next, hnext, hrest⟩ := follow?_cons.mp h
    intro i hi
    rcases List.mem_cons.mp hi with rfl | hi
    · obtain ⟨task, stride, -, hstep, -⟩ := step?_expire.mp hnext
      cases Task.Expires.of_expire? hstep with
      | lookup hlimit =>
        rw [hlookup] at hlimit
        cases hlimit
      | delivery hlimit =>
        rw [hdelivery] at hlimit
        cases hlimit
    · exact ih hrest i hi

theorem Run.step?_limits (limits' : Limits) {move : Move} (h : ∀ i, move ≠ .expire i)
    (s : Run × Shared σ) : s.1.step? remote limits s.2 move = s.1.step? remote limits' s.2 move := by
  cases move with
  | start i => rfl
  | advance i => rfl
  | expire i => exact absurd rfl (h i)

theorem NoneExpires.of_cons {move : Move} {moves : List Move} (h : NoneExpires (move :: moves)) :
    (∀ i, move ≠ .expire i) ∧ NoneExpires moves :=
  ⟨fun i hi => h i (hi ▸ List.mem_cons_self), fun i hi => h i (List.mem_cons_of_mem _ hi)⟩

/-- **Limits that cut nothing off make no difference.** -/
theorem Run.follow?_limits (limits' : Limits) {moves : List Move} (h : NoneExpires moves)
    (s : Run × Shared σ) :
    follow? remote limits moves s = follow? remote limits' moves s := by
  induction moves generalizing s with
  | nil => rfl
  | cons move moves ih =>
    obtain ⟨hmove, hmoves⟩ := h.of_cons
    have hrest := ih hmoves
    unfold follow? at hrest ⊢
    rw [List.foldlM_cons, List.foldlM_cons, step?_limits limits' hmove]
    exact congrArg _ (funext hrest)

/-- A configuration without its limits. -/
def Config.unlimited (config : Config) : Config :=
  { config with deliveryLimit := none, lookupLimit := none }

section Unlimited

variable {s : Syncer σ} {config : Config} {actions : List Action} {moves : List Move} {run : Run}
  {shared : Shared σ}

/-- **A sync in which nothing is cut off** is one without limits. -/
theorem Syncer.follows_unlimited_iff (hmoves : NoneExpires moves) :
    s.Follows remote config.unlimited actions moves run shared ↔
      s.Follows remote config actions moves run shared := by
  have hlimits : ∀ t, Run.follow? remote config.limits moves t =
      Run.follow? remote config.unlimited.limits moves t := Run.follow?_limits _ hmoves
  constructor
  · rintro ⟨hadmitted, begun, hbegun, hfollows⟩
    exact ⟨hadmitted, begun, hbegun, (hlimits _).trans hfollows⟩
  · rintro ⟨hadmitted, begun, hbegun, hfollows⟩
    exact ⟨hadmitted, begun, hbegun, (hlimits _).symm.trans hfollows⟩

theorem Syncer.Serves.unlimited (h : s.Serves remote config actions moves run shared)
    (hmoves : NoneExpires moves) : s.Serves remote config.unlimited actions moves run shared :=
  ⟨(follows_unlimited_iff hmoves).mpr h.toFollows, h.done⟩

/-- A sync without limits is one in which nothing is cut off, whatever limits there were. -/
theorem Syncer.Serves.of_unlimited
    (h : s.Serves remote config.unlimited actions moves run shared) :
    NoneExpires moves ∧ s.Serves remote config actions moves run shared := by
  have hmoves := Run.noneExpires_of_follow? rfl rfl h.moved
  exact ⟨hmoves, (follows_unlimited_iff hmoves).mp h.toFollows, h.done⟩

end Unlimited

/-! ## Prompt answers -/

/-- The answers are there at once, and go on to be. -/
structure Remote.Prompt (remote : Remote σ) (I : σ → Prop) : Prop where
  lookup : ∀ s entity, I s → (remote.lookup s entity).1.delay = none ∧ I (remote.lookup s entity).2
  call : ∀ s call, I s → (remote.call s call).1.delay = none ∧ I (remote.call s call).2

/-- The answer that was given was there at once. -/
def Phase.Prompt : Phase → Prop
  | .between => True
  | .lookingUp _ _ reply => ∀ r ∈ reply, r.delay = none
  | .calling _ _ _ _ reply => ∀ r ∈ reply, r.delay = none

/-- The answer that a task was given was there at once. -/
def Task.Prompt : Task → Prop
  | .active phase _ _ => phase.Prompt
  | .waiting _ => True
  | .finished _ => True
  | .brokenDown _ => True

namespace Task

variable (a : Action) (queue : List Action) (tally : Report)

theorem prompt_carryOut (conflicted : Bool) (calls : List Call) :
    (carryOut a conflicted calls queue tally).task.Prompt := by
  cases calls with
  | nil => trivial
  | cons call later => exact nofun

theorem prompt_attempt (conflicted : Bool) : (attempt a conflicted queue tally).task.Prompt := by
  unfold attempt
  split
  · trivial
  · exact prompt_carryOut a queue tally conflicted _

theorem prompt_settle (conflict : Option Conflict) :
    (settle a conflict queue tally).task.Prompt := by
  unfold settle
  split
  · exact prompt_attempt a queue tally false
  · simp only
    split
    · exact prompt_attempt a queue _ true
    · trivial

theorem prompt_takeUp : (takeUp a queue tally).task.Prompt := by
  unfold takeUp
  simp only
  split
  · exact prompt_settle a queue _ none
  · intro r hr
    cases hr

/-- **A task that goes on has no answer, or one that was there at once.** -/
theorem Advances.prompt {task : Task} {s s' : σ} {stride : Stride} (hremote : remote.Prompt I)
    (hs : I s) (h : task.Advances remote s stride s') : stride.task.Prompt ∧ I s' := by
  cases h with
  | finish => exact ⟨trivial, hs⟩
  | takeUp => exact ⟨prompt_takeUp _ _ _, hs⟩
  | look =>
    obtain ⟨hdelay, hs'⟩ := hremote.lookup s _ hs
    exact ⟨fun r hr => Option.mem_some.mp hr ▸ hdelay, hs'⟩
  | lookBroke => exact ⟨trivial, hs⟩
  | looked _ => exact ⟨prompt_settle _ _ _ _, hs⟩
  | call =>
    obtain ⟨hdelay, hs'⟩ := hremote.call s _ hs
    exact ⟨fun r hr => Option.mem_some.mp hr ▸ hdelay, hs'⟩
  | callBroke => exact ⟨trivial, hs⟩
  | refused => exact ⟨trivial, hs⟩
  | accepted => exact ⟨prompt_carryOut _ _ _ _ _, hs⟩

end Task

/-- All answers that were given were there at once. -/
structure Run.Prompt (I : σ → Prop) (s : Run × Shared σ) : Prop where
  remote : I s.2.remote
  tasks : ∀ task ∈ s.1.tasks, task.Prompt

theorem Run.Prompt.advance {s s' : Run × Shared σ} {i : Nat} (hremote : remote.Prompt I)
    (h : Run.Prompt I s) (hstep : s.1.step? remote limits s.2 (.advance i) = some s') :
    Run.Prompt I s' := by
  obtain ⟨task, stride, t, -, hstride, rfl⟩ := step?_advance.mp hstep
  obtain ⟨hprompt, ht⟩ := (Task.Advances.of_advance? hstride).prompt hremote h.remote
  refine ⟨ht, fun other hother => ?_⟩
  rcases List.mem_or_eq_of_mem_set hother with hother | rfl
  · exact h.tasks other hother
  · exact hprompt

theorem Run.Prompt.start {s s' : Run × Shared σ} {i : Nat} (h : Run.Prompt I s)
    (hstep : s.1.step? remote limits s.2 (.start i) = some s') : Run.Prompt I s' := by
  obtain ⟨queue, -, -, rfl⟩ := step?_start.mp hstep
  refine ⟨h.remote, fun other hother => ?_⟩
  rcases List.mem_or_eq_of_mem_set hother with hother | rfl
  · exact h.tasks other hother
  · trivial

/-! ## Prompt answers in virtual time -/

namespace Timeline

variable {t t' : Timeline σ} {i : Nat}

/-- Nobody is to give up, and there is no reason to. -/
structure Prompt (I : σ → Prop) (t : Timeline σ) : Prop where
  run : Run.Prompt I (t.run, t.shared)
  proceed : ∀ due ∈ t.upcoming, due.2 = .proceed

/-- Only those that were to go on are to go on. -/
theorem Prompt.replan (h : t.Prompt I) (hplans : t.Replanned t')
    (hupcoming : t'.upcoming ⊆ t.upcoming) : t'.Prompt I where
  run := by
    rw [hplans.run, hplans.shared]
    exact h.run
  proceed due hdue := h.proceed due (hupcoming hdue)

theorem mem_upcoming {due : Nat × Wake} :
    due ∈ t.upcoming ↔ t.current = some due ∨ due ∈ t.ready.map Entry.due ∨
      due ∈ t.resting.map Entry.due ∨ due ∈ t.timers.map Timer.due := by
  unfold upcoming coming
  rw [List.mem_append, List.mem_append, List.mem_append, Option.mem_toList, or_assoc]

theorem mem_upcoming_of_ready {e : Entry} (h : e ∈ t.ready) : e.due ∈ t.upcoming :=
  mem_upcoming.mpr (Or.inr (Or.inl (List.mem_map_of_mem h)))

theorem mem_upcoming_of_timers {timer : Timer} (h : timer ∈ t.timers) : timer.due ∈ t.upcoming :=
  mem_upcoming.mpr (Or.inr (Or.inr (Or.inr (List.mem_map_of_mem h))))

/-- Whoever has a turn, waits, or stands in line was to go on. -/
theorem upcoming_take {e : Entry} {ready : List Entry} (hready : t.ready = e :: ready) :
    ({ t with ready }.take e).upcoming ⊆ t.upcoming := by
  have he : e.due ∈ t.upcoming := mem_upcoming_of_ready (hready ▸ List.mem_cons_self)
  have hrest : ∀ due, due ∈ ready.map Entry.due ∨ due ∈ t.resting.map Entry.due ∨
      due ∈ t.timers.map Timer.due → due ∈ t.upcoming := by
    rintro due (hdue | hdue)
    · obtain ⟨e', he', rfl⟩ := List.mem_map.mp hdue
      exact mem_upcoming_of_ready (hready ▸ List.mem_cons_of_mem e he')
    · exact mem_upcoming.mpr (Or.inr (Or.inr hdue))
  have hturn : ∀ turn turns, (({ t with
      ready, turns, current := some (e.task, e.wake), turn } : Timeline σ).upcoming) ⊆
        t.upcoming := by
    intro turn turns due hdue
    rcases mem_upcoming.mp hdue with hdue | hdue
    · cases hdue
      exact he
    · exact hrest due hdue
  unfold take
  simp only
  split
  · intro due hdue
    rcases mem_upcoming.mp hdue with hdue | hdue | hdue | hdue
    · exact mem_upcoming.mpr (Or.inl hdue)
    · exact hrest due (Or.inl hdue)
    · exact hrest due (Or.inr (Or.inl hdue))
    · rw [List.map_append, List.mem_append] at hdue
      rcases hdue with hdue | hdue
      · exact hrest due (Or.inr (Or.inr hdue))
      · rw [List.mem_singleton.mp hdue]
        exact he
  · split
    · split
      · exact hturn _ _
      · intro due hdue
        rcases mem_upcoming.mp hdue with hdue | hdue
        · exact mem_upcoming.mpr (Or.inl hdue)
        · exact hrest due hdue
    · exact hturn _ _

theorem upcoming_jump (t : Timeline σ) (time : Nat) : (t.jump time).upcoming ⊆ t.upcoming := by
  intro due hdue
  rcases mem_upcoming.mp hdue with hdue | hdue | hdue | hdue
  · exact mem_upcoming.mpr (Or.inl hdue)
  · obtain ⟨e, he, rfl⟩ := List.mem_map.mp hdue
    obtain ⟨timer, htimer, rfl⟩ := List.mem_map.mp he
    exact mem_upcoming_of_timers (List.mem_filter.mp htimer).1
  · exact mem_upcoming.mpr (Or.inr (Or.inr (Or.inl hdue)))
  · obtain ⟨timer, htimer, rfl⟩ := List.mem_map.mp hdue
    exact mem_upcoming_of_timers (List.mem_filter.mp htimer).1

theorem upcoming_nextRound (t : Timeline σ) : t.nextRound.upcoming = t.upcoming := by
  simp [upcoming, coming, nextRound]

theorem upcoming_await {horizon : Option Nat} (h : t.await horizon = some t') :
    t'.upcoming ⊆ t.upcoming := by
  unfold await at h
  split at h
  · cases h
  · cases h
    exact List.Subset.refl _
  · cases h
    exact upcoming_jump t _
  · cases h
    split
    · exact List.Subset.refl _
    · exact upcoming_jump t _

theorem upcoming_endRound {horizon : Option Nat} (h : t.endRound horizon = some t') :
    t'.upcoming ⊆ t.upcoming := by
  rw [endRound_eq] at h
  rw [← upcoming_nextRound t]
  split at h
  · cases h
    exact List.Subset.refl _
  · split at h
    · exact upcoming_await h
    · cases h
      exact List.Subset.refl _

/-- A task that has its answer goes on at once. -/
theorem waitFor_none (t : Timeline σ) (i : Nat) (left : Option Nat) :
    t.waitFor i none left = { t with current := some (i, .proceed) } := rfl

/-- The first in line is to begin. -/
theorem upcoming_afterEnd (t : Timeline σ) (i : Nat) :
    ∀ due ∈ (t.afterEnd i).upcoming, due ∈ t.upcoming ∨ due.2 = .proceed := by
  intro due hdue
  rcases mem_upcoming.mp hdue with hdue | hdue | hdue
  · cases hdue
  · obtain ⟨e, he, rfl⟩ := List.mem_map.mp hdue
    rcases List.mem_append.mp he with he | he
    · exact Or.inl (mem_upcoming_of_ready he)
    · obtain ⟨next, -, rfl⟩ := List.mem_map.mp he
      exact Or.inr rfl
  · exact Or.inl (mem_upcoming.mpr (Or.inr (Or.inr hdue)))

/-- Whoever goes on after a move goes on with its answer. -/
theorem upcoming_plan (htasks : ∀ task ∈ t.run.tasks, task.Prompt) (limits : Limits) (i : Nat) :
    ∀ due ∈ (t.plan limits i).upcoming, due ∈ t.upcoming ∨ due.2 = .proceed := by
  have hcurrent : ∀ turn, ∀ due ∈ ({ t with current := some (i, .proceed), turn } :
      Timeline σ).upcoming, due ∈ t.upcoming ∨ due.2 = .proceed := by
    intro turn due hdue
    rcases mem_upcoming.mp hdue with hdue | hdue
    · cases hdue
      exact Or.inr rfl
    · exact Or.inl (mem_upcoming.mpr (Or.inr hdue))
  unfold plan
  split
  · exact hcurrent _
  · rename_i htask
    have hdelay := htasks _ (List.mem_of_getElem? htask) _ rfl
    rw [hdelay, waitFor_none]
    exact hcurrent _
  · rename_i htask
    have hdelay := htasks _ (List.mem_of_getElem? htask) _ rfl
    rw [hdelay, waitFor_none]
    exact hcurrent _
  · exact hcurrent _
  · exact upcoming_afterEnd t i

theorem upcoming_beginCalls (t : Timeline σ) (limits : Limits) (i : Nat) :
    (t.beginCalls limits i).upcoming = t.upcoming := by
  unfold beginCalls
  cases limits.delivery <;> rfl

/-- Moves that cut no answer off lead from one timeline to another. -/
def FollowsUncut (remote : Remote σ) (limits : Limits) (t t' : Timeline σ) : Prop :=
  ∃ moves, NoneExpires moves ∧
    Run.follow? remote limits moves (t.run, t.shared) = some (t'.run, t'.shared)

theorem Replanned.followsUncut (h : t.Replanned t') : t.FollowsUncut remote limits t' := by
  refine ⟨[], fun i => List.not_mem_nil, ?_⟩
  rw [h.run, h.shared]
  rfl

theorem FollowsUncut.trans {t'' : Timeline σ} (h : t.FollowsUncut remote limits t')
    (h' : t'.FollowsUncut remote limits t'') : t.FollowsUncut remote limits t'' := by
  obtain ⟨moves, hmoves, hfollows⟩ := h
  obtain ⟨more, hmore, hfollows'⟩ := h'
  exact ⟨moves ++ more, hmoves.append hmore, Run.follow?_append hfollows hfollows'⟩

/-- **Whoever has a turn goes on with its answer**, and nobody is to give up after it. -/
theorem Prompt.act (hremote : remote.Prompt I) (h : t.Prompt I) {wake : Wake}
    (hcurrent : t.current = some (i, wake)) :
    (t.act remote limits i wake).Prompt I ∧
      t.FollowsUncut remote limits (t.act remote limits i wake) := by
  -- Whoever has a turn was planned to go on, so its move is no expiry.
  obtain rfl : wake = .proceed := h.proceed _ (mem_upcoming.mpr (Or.inl hcurrent))
  unfold Timeline.act
  cases hstep : t.run.step? remote limits t.shared (t.moveOf i .proceed) with
  | none =>
    have hidle : t.Replanned { t with current := none } := .of_eq rfl rfl rfl rfl
    refine ⟨h.replan hidle fun due hdue => ?_, hidle.followsUncut⟩
    rcases mem_upcoming.mp hdue with hdue | hdue
    · cases hdue
    · exact mem_upcoming.mpr (Or.inr hdue)
  | some next =>
    obtain ⟨run, shared⟩ := next
    obtain ⟨hrun, hmove⟩ : Run.Prompt I (run, shared) ∧ NoneExpires [t.moveOf i .proceed] := by
      unfold moveOf at hstep ⊢
      simp only at hstep ⊢
      split at hstep
      · rename_i hwaiting
        rw [if_pos hwaiting]
        exact ⟨h.run.start hstep, fun j hj => nomatch List.mem_singleton.mp hj⟩
      · rename_i hwaiting
        rw [if_neg hwaiting]
        exact ⟨h.run.advance hremote hstep, fun j hj => nomatch List.mem_singleton.mp hj⟩
    -- A limit that begins with the move changes the deadlines only.
    have hplan : ∀ t' : Timeline σ, t'.run = run → t'.shared = shared → t'.upcoming = t.upcoming →
        (t'.plan limits i).Prompt I ∧ t.FollowsUncut remote limits (t'.plan limits i) := by
      rintro t' rfl rfl hupcoming
      have hsame := Replanned.plan t' limits i
      refine ⟨⟨by rwa [hsame.run, hsame.shared], fun due hdue => ?_⟩, _, hmove, ?_⟩
      · rcases upcoming_plan hrun.tasks limits i due hdue with hdue | hdue
        · exact h.proceed due (hupcoming ▸ hdue)
        · exact hdue
      · rw [hsame.run, hsame.shared]
        exact Run.follow?_cons.mpr ⟨_, hstep, rfl⟩
    simp only
    split
    · have hbegun := Replanned.beginCalls ({ t with run, shared } : Timeline σ) limits i
      exact hplan _ hbegun.run hbegun.shared (upcoming_beginCalls _ limits i)
    · exact hplan _ rfl rfl rfl

/-- **Nobody gives up**, and nobody is planned to. -/
theorem Prompt.next? (hremote : remote.Prompt I) {horizon : Option Nat} (h : t.Prompt I)
    (hnext : t.next? remote limits horizon = some t') :
    t'.Prompt I ∧ t.FollowsUncut remote limits t' := by
  unfold Timeline.next? at hnext
  split at hnext
  · cases hnext
  · split at hnext
    · rename_i hcurrent
      cases hnext
      exact h.act hremote hcurrent
    · have hround := Replanned.of_endRound hnext
      exact ⟨h.replan hround (upcoming_endRound hnext), hround.followsUncut⟩
    · rename_i e ready _ hready
      split at hnext
      · cases hnext
        have hready' : t.Replanned { t with ready } := .of_eq rfl rfl rfl rfl
        have htaken := hready'.trans (.take _ e)
        exact ⟨h.replan htaken (upcoming_take hready), htaken.followsUncut⟩
      · have hround := Replanned.of_endRound hnext
        exact ⟨h.replan hround (upcoming_endRound hnext), hround.followsUncut⟩

theorem Prompt.go (hremote : remote.Prompt I) (limits : Limits) (horizon : Option Nat) (fuel : Nat)
    (h : t.Prompt I) : t.FollowsUncut remote limits (t.go remote limits horizon fuel) := by
  induction fuel generalizing t with
  | zero => exact (Replanned.refl t).followsUncut
  | succ fuel ih =>
    unfold Timeline.go
    cases hnext : t.next? remote limits horizon with
    | none => exact (Replanned.refl t).followsUncut
    | some next =>
      obtain ⟨hprompt, hfollows⟩ := h.next? hremote hnext
      exact hfollows.trans (ih hprompt)

/-- **In virtual time no prompt answer is cut off.** -/
theorem complete_prompt (hremote : remote.Prompt I) (limits : Limits) (horizon : Option Nat)
    (turn : Turn) {run : Run} (shared : Shared σ) (hwaiting : run.Unbegun)
    (hshared : I shared.remote) :
    ∃ moves, NoneExpires moves ∧ Run.follow? remote limits moves (run, shared) =
      some ((complete remote limits horizon turn run shared).run,
        (complete remote limits horizon turn run shared).shared) := by
  have hrun : Run.Prompt I (run, shared) := by
    refine ⟨hshared, fun task htask => ?_⟩
    obtain ⟨queue, rfl⟩ := hwaiting task htask
    trivial
  have houtset : (outset turn run shared).Prompt I := by
    refine ⟨hrun, fun due hdue => ?_⟩
    rcases mem_upcoming.mp hdue with hdue | hdue | hdue | hdue
    · cases hdue
    · obtain ⟨e, he, rfl⟩ := List.mem_map.mp hdue
      rcases List.mem_append.mp he with he | he
      · rw [List.eq_of_mem_replicate he]
        rfl
      · obtain ⟨i, -, rfl⟩ := List.mem_map.mp he
        rfl
    · cases hdue
    · cases hdue
  exact (houtset.replan (.callerTurn _ horizon) (List.Subset.refl _)).go hremote limits horizon _

end Timeline

/-- **A sync of prompt answers cuts nothing off**, whatever the limits are. -/
theorem Syncer.sync_serves_promptly (s : Syncer σ) (config : Config) (actions : List Action)
    (turn : Turn) (hremote : remote.Prompt I) (hs : I s.shared.remote) (hidle : s.flight = .idle)
    (hbound : config.topicsAtATime ≤ mostPlaces) :
    ∃ moves run shared, NoneExpires moves ∧ s.Serves remote config actions moves run shared ∧
      (s.sync remote config none actions turn).result = .report run.report ∧
      (s.sync remote config none actions turn).state = ⟨.idle, shared, s.live⟩ := by
  obtain ⟨moves, hmoves, hfollows⟩ := Timeline.complete_prompt hremote config.limits none turn
    ⟨.ofBatch actions.length, s.shared.remote⟩ (Run.unbegun_ofActions config actions) hs
  obtain ⟨hserves, hresult, hstate⟩ := serves_of_complete turn hidle hbound hfollows
  exact ⟨moves, _, _, hmoves, hserves, hresult, hstate⟩

end Outbox
