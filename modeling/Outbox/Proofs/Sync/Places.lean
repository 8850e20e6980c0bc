import Outbox.Proofs.Sync.Request
import Outbox.Proofs.Sync.Schedule
import Outbox.Proofs.Sync.Served
import Mathlib.Logic.Relation

/-!
# Places do not run out

Where the number of topics at a time is bounded, a task holds a place from its beginning to its end,
be it that it finishes or breaks down. `Run.Moves` leaves open what is shared at a move, so between
two moves of a run the remote system may be used by others, and may change at will. `Run.Bounded`
says what holds of every run that moves lead to from the start (`Syncer.request_bounded`):

* the free places and the active tasks make up the bound, so there are never more active tasks, and
  a task that asks the remote system holds a place;
* some move is possible until the run is done, and every move leaves less to do;
* a run without a possible move is done, and all places are free again.
-/

namespace Outbox

variable {σ : Type} {remote : Remote σ} {limits : Limits}

namespace Run

/-- One run becomes another by a move, whatever is shared at that moment. -/
def Moves (remote : Remote σ) (limits : Limits) (r r' : Run) : Prop :=
  ∃ move shared shared', r.step? remote limits shared move = some (r', shared')

/-- Moves lead from one run to another. -/
abbrev Reaches (remote : Remote σ) (limits : Limits) : Run → Run → Prop :=
  Relation.ReflTransGen (Moves remote limits)

/-- **No run can make moves for ever.** -/
theorem wellFounded_moves (remote : Remote σ) (limits : Limits) :
    WellFounded fun r' r => Moves remote limits r r' := by
  refine Subrelation.wf ?_ (measure work).wf
  rintro r' r ⟨move, shared, shared', hstep⟩
  exact step?_work (s := (r, shared)) hstep

/-- A schedule leads from its beginning to its end. -/
theorem reaches_of_follow? {moves : List Move} {s s' : Run × Shared σ}
    (h : follow? remote limits moves s = some s') : Reaches remote limits s.1 s'.1 :=
  follow?_keeps (I := fun t => Reaches remote limits s.1 t.1)
    (fun t move t' ht hstep => ht.tail ⟨move, t.2, t'.2, hstep⟩) h .refl

/-- What a run does with a bounded number of places. -/
structure Bounded (remote : Remote σ) (limits : Limits) (bound : Nat) (r : Run) : Prop where
  active_le : r.active ≤ bound
  /-- Every place is free or held by an active task. -/
  places : ∃ free, r.places = some free ∧ free + r.active = bound
  /-- Whoever asks the remote system holds a place. -/
  asks : ∀ move i request, r.request? move = some (i, request) →
    ∃ task, r.tasks[i]? = some task ∧ task.isActive = true
  /-- Nobody waits for ever: some task can make a move. -/
  goesOn : r.isDone = false → ∀ shared : Shared σ,
    ∃ move next, r.step? remote limits shared move = some next
  less : ∀ r', r.Moves remote limits r' → r'.work < r.work
  /-- A run that stands still is done, and has given all places back. -/
  ends : ∀ shared : Shared σ, (∀ move, r.step? remote limits shared move = none) →
    r.isDone = true ∧ r.places = some bound

/-- A task that asks is active. -/
theorem active_of_request? {r : Run} {move : Move} {i : Nat} {request : Request}
    (h : r.request? move = some (i, request)) :
    ∃ task, r.tasks[i]? = some task ∧ task.isActive = true := by
  cases move with
  | start j => cases h
  | expire j => cases h
  | advance j =>
    obtain ⟨request', hasked, heq⟩ := Option.map_eq_some_iff.mp h
    cases heq
    obtain ⟨task, htask, hrequest⟩ := Option.bind_eq_some_iff.mp hasked
    refine ⟨task, htask, ?_⟩
    unfold Task.request? at hrequest
    split at hrequest
    · rfl
    · rfl
    · cases hrequest

/-- When all tasks have ended, none is active. -/
theorem active_of_isDone {r : Run} (h : r.isDone = true) : r.active = 0 := by
  refine List.countP_eq_zero.mpr fun task hmem => ?_
  rw [Task.isActive_of_ended (List.all_eq_true.mp h task hmem)]
  exact Bool.false_ne_true

/-- Where places are kept, what a run does is bounded by them. -/
theorem PlacesKept.bounded {r : Run} {bound : Nat} (h : r.PlacesKept bound)
    (hplaces : r.places ≠ none) : r.Bounded remote limits bound := by
  obtain ⟨free, hfree⟩ := Option.ne_none_iff_exists'.mp hplaces
  obtain ⟨-, hsum⟩ := h free hfree
  have hgoesOn : r.isDone = false → ∀ shared : Shared σ,
      ∃ move next, r.step? remote limits shared move = some next :=
    fun hdone shared => exists_move remote limits shared h hdone
  refine ⟨by omega, ⟨free, hfree, hsum⟩, fun _ _ _ => active_of_request?, hgoesOn, ?_, ?_⟩
  · rintro r' ⟨move, shared, shared', hstep⟩
    exact step?_work (s := (r, shared)) hstep
  · intro shared hstill
    have hdone : r.isDone = true := by
      by_contra hdone
      obtain ⟨move, next, hnext⟩ := hgoesOn (eq_false_of_ne_true hdone) shared
      rw [hstill move] at hnext
      cases hnext
    rw [active_of_isDone hdone, Nat.add_zero] at hsum
    exact ⟨hdone, hfree.trans (congrArg some hsum)⟩

/-- A bound stays a bound. -/
theorem places_ne_none_of_step? {s s' : Run × Shared σ} {move : Move}
    (h : s.1.step? remote limits s.2 move = some s') (hs : s.1.places ≠ none) :
    s'.1.places ≠ none := by
  have hput : ∀ (i : Nat) (stride : Stride) (t : σ),
      (s.1.put s.2 i stride t).1.places ≠ none := by
    intro i stride t
    unfold put
    simp only
    split
    · simpa using hs
    · exact hs
  cases move with
  | start i =>
    obtain ⟨queue, -, -, rfl⟩ := step?_start.mp h
    simpa using hs
  | advance i =>
    obtain ⟨task, stride, t, -, -, rfl⟩ := step?_advance.mp h
    exact hput i stride t
  | expire i =>
    obtain ⟨task, stride, -, -, rfl⟩ := step?_expire.mp h
    exact hput i stride _

/-- **Every run that is reached from the start is bounded.** -/
theorem Reaches.bounded {config : Config} {actions : List Action} {r : Run}
    (hbound : 0 < config.topicsAtATime)
    (h : Reaches remote limits (ofActions config actions) r) :
    r.Bounded remote limits config.topicsAtATime := by
  have hkept : r.PlacesKept config.topicsAtATime ∧ r.places ≠ none := by
    induction h with
    | refl =>
      refine ⟨placesKept_ofActions config actions, ?_⟩
      unfold ofActions
      simp only [if_neg (Nat.ne_of_gt hbound)]
      exact Option.some_ne_none _
    | tail _ hstep ih =>
      obtain ⟨move, shared, shared', hstep⟩ := hstep
      exact ⟨placesKept_step? (s := (_, shared)) ih.1 hstep,
        places_ne_none_of_step? (s := (_, shared)) hstep ih.2⟩
  exact hkept.1.bounded hkept.2

end Run

namespace Syncer

/-- **Bounded work never exceeds its bound and never gets stuck.** A request with a bound that can
be kept is admitted, and its run cannot make moves for ever. Whatever moves it makes, in whatever
order and whatever happens to the remote system meanwhile, at every point the free places and the
active tasks make up the bound, some task can go on unless all have ended, and a run that stands
still has all its tasks ended and all its places free. -/
theorem request_bounded (remote : Remote σ) {s : Syncer σ} {config : Config}
    (actions : List Action) (hidle : s.flight = .idle) (hpos : 0 < config.topicsAtATime)
    (hbound : config.topicsAtATime ≤ mostPlaces) :
    (s.request config actions).1 = .admitted ∧
      (s.request config actions).2.live[s.live.length]? = some (Run.ofActions config actions) ∧
      (WellFounded fun r' r => Run.Moves remote config.limits r r') ∧
      ∀ r, Run.Reaches remote config.limits (Run.ofActions config actions) r →
        r.Bounded remote config.limits config.topicsAtATime := by
  have hadmitted : (s.request config actions).1 = .admitted := by
    rw [request_of_idle config actions hidle hbound]
  exact ⟨hadmitted, live_of_admitted hadmitted, Run.wellFounded_moves remote config.limits,
    fun r hr => hr.bounded hpos⟩

/-- One topic at a time. -/
def oneByOne : Config := { Config.default with topicsAtATime := 1 }

/-- The join breaks down, and then the like begins. -/
def passedOnMoves : List Move :=
  .start 0 :: List.replicate 3 (.advance 0) ++ [.start 1]

/-- The like has the place that the join gave back. -/
def passedOnRun : Run where
  batch := 2
  tasks := [.brokenDown ⟨[], [], [], 1⟩, .active .between [sampleLike] .empty]
  places := some 0

theorem request_bounded_sample :
    (start brokenScript).flight = .idle ∧ 0 < oneByOne.topicsAtATime ∧
      oneByOne.topicsAtATime ≤ mostPlaces ∧
      Run.Reaches ScriptedRemote.remote oneByOne.limits
        (Run.ofActions oneByOne [sampleJoin, sampleLike]) passedOnRun ∧
      passedOnRun.Bounded ScriptedRemote.remote oneByOne.limits 1 ∧ passedOnRun.active = 1 := by
  have hmoves : Run.follow? ScriptedRemote.remote oneByOne.limits passedOnMoves
      (Run.ofActions oneByOne [sampleJoin, sampleLike], ⟨.ofBatch 2, brokenScript⟩) =
        some (passedOnRun, ⟨.ofBatch 2, { brokenScript with calls := [.joinTopic "t"] }⟩) := by
    decide +kernel
  have hreached := Run.reaches_of_follow? hmoves
  have hbound : oneByOne.topicsAtATime ≤ mostPlaces := by decide
  have hmain := @request_bounded _ ScriptedRemote.remote (start brokenScript) oneByOne
    [sampleJoin, sampleLike] rfl (by decide) hbound
  exact ⟨rfl, by decide, hbound, hreached, hmain.2.2.2 _ hreached, rfl⟩

end Syncer
end Outbox
