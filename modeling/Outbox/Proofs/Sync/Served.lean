import Outbox.Proofs.Sync.Timeline
import Outbox.Remote.Scripted
import Outbox.Syncer

/-!
# Syncs that return

`Syncer.Follows` says that a request was admitted and that the sync made the moves of a schedule,
and `Syncer.Serves` that they took it to its end. The answers of the remote system and the order of
the moves are free, so what holds of all syncs that are served holds whatever the remote system does
and whenever its tasks go on.

* `Syncer.request_of_idle`, `Syncer.request_of_unbounded`, `Syncer.request_of_running`: how a
  request is met.
* `Syncer.Follows.moved`: the schedule begins with all tasks waiting.
* `Syncer.Follows.serves`: every schedule leads on to one that takes the sync to its end.
* `Syncer.report_of_sync`: a sync in virtual time that returns a report was served.
-/

namespace Outbox.Syncer

variable {σ : Type} {remote : Remote σ} {config : Config} {actions : List Action} {s : Syncer σ}

/-- A request for a sync of a batch was admitted, and the sync made these moves. -/
structure Follows (remote : Remote σ) (config : Config) (actions : List Action) (s : Syncer σ)
    (moves : List Move) (run : Run) (shared : Shared σ) : Prop where
  admitted : (s.request config actions).1 = .admitted
  follows : ∃ begun, (s.request config actions).2.live[s.live.length]? = some begun ∧
    Run.follow? remote config.limits moves (begun, (s.request config actions).2.shared) =
      some (run, shared)

/-- The moves took the sync to its end. -/
structure Serves (remote : Remote σ) (config : Config) (actions : List Action) (s : Syncer σ)
    (moves : List Move) (run : Run) (shared : Shared σ) : Prop
    extends s.Follows remote config actions moves run shared where
  done : run.isDone = true

/-! ## Admission -/

/-- A syncer that runs no sync admits the next one, if it can keep the bound. -/
theorem request_of_idle (config : Config) (actions : List Action) (hidle : s.flight = .idle)
    (hbound : config.topicsAtATime ≤ mostPlaces) :
    s.request config actions = (.admitted, {
      flight := .running actions.length
      shared := ⟨.ofBatch actions.length, s.shared.remote⟩
      live := s.live ++ [Run.ofActions config actions] }) := by
  unfold request
  rw [hidle]
  simp only [Flight.on, if_pos hbound, ↓reduceIte]

/-- A bound that is too large breaks the sync down at once, and the place is free again. -/
theorem request_of_unbounded (config : Config) (actions : List Action) (hidle : s.flight = .idle)
    (hbound : ¬ config.topicsAtATime ≤ mostPlaces) :
    s.request config actions =
      (.brokeDown, { s with shared := ⟨.ofBatch actions.length, s.shared.remote⟩ }) := by
  obtain ⟨flight, shared, live⟩ := s
  cases hidle
  unfold request
  simp only [Flight.on, if_neg hbound, ↓reduceIte, finish]
  rw [List.eraseIdx_append_of_length_le (Nat.le_refl _), Nat.sub_self]
  simp only [List.eraseIdx_cons_zero, List.append_nil]

/-- A request while a sync is running is turned away and changes nothing. -/
theorem request_of_running (config : Config) (actions : List Action) {n : Nat}
    (hrunning : s.flight = .running n) :
    s.request config actions = (.busy, s) := by
  obtain ⟨flight, shared, live⟩ := s
  cases hrunning
  rfl

/-- An admitted sync comes last, and all its tasks wait. -/
theorem request_admitted (h : (s.request config actions).1 = .admitted) :
    (s.request config actions).2 = {
      flight := .running actions.length
      shared := ⟨.ofBatch actions.length, s.shared.remote⟩
      live := s.live ++ [Run.ofActions config actions] } := by
  cases hflight : s.flight with
  | idle =>
    by_cases hbound : config.topicsAtATime ≤ mostPlaces
    · rw [request_of_idle config actions hflight hbound]
    · rw [request_of_unbounded config actions hflight hbound] at h
      cases h
  | running n =>
    rw [request_of_running config actions hflight] at h
    cases h

theorem live_of_admitted (h : (s.request config actions).1 = .admitted) :
    (s.request config actions).2.live[s.live.length]? = some (Run.ofActions config actions) := by
  rw [request_admitted h]
  exact List.getElem?_concat_length

section Follows

variable {moves : List Move} {run : Run} {shared : Shared σ}

/-- **A sync begins with all tasks waiting.** -/
theorem Follows.moved (h : s.Follows remote config actions moves run shared) :
    Run.follow? remote config.limits moves
      (Run.ofActions config actions, ⟨.ofBatch actions.length, s.shared.remote⟩) =
        some (run, shared) := by
  obtain ⟨begun, hbegun, hfollows⟩ := h.follows
  rw [live_of_admitted h.admitted] at hbegun
  cases hbegun
  rw [request_admitted h.admitted] at hfollows
  exact hfollows

/-- **Every sync can be taken to its end**, whatever moves it has made. -/
theorem Follows.serves (h : s.Follows remote config actions moves run shared) :
    ∃ more run' shared', s.Serves remote config actions (moves ++ more) run' shared' := by
  have hplaces : run.PlacesKept config.topicsAtATime :=
    Run.follow?_keeps (I := fun s => s.1.PlacesKept config.topicsAtATime)
      (fun _ _ _ hs hstep => Run.placesKept_step? hs hstep) h.moved
      (Run.placesKept_ofActions config actions)
  obtain ⟨more, ⟨run', shared'⟩, hmore, hdone⟩ :=
    Run.exists_schedule remote config.limits (run, shared) hplaces
  obtain ⟨begun, hbegun, hfollows⟩ := h.follows
  exact ⟨more, run', shared',
    ⟨⟨h.admitted, begun, hbegun, Run.follow?_append hfollows hmore⟩, hdone⟩⟩

end Follows

/-! ## Syncs in virtual time -/

/-- **A sync in virtual time that returns a report was served.** -/
theorem report_of_sync {horizon : Option Nat} {turn : Turn} {r : Report}
    (h : (s.sync remote config horizon actions turn).result = .report r) :
    ∃ moves run shared, s.Serves remote config actions moves run shared ∧ run.report = r := by
  unfold sync at h
  split at h
  · rename_i admitted hrequest
    have hadmitted : (s.request config actions).1 = .admitted := by rw [hrequest]
    have hlive := live_of_admitted hadmitted
    rw [hrequest] at hlive
    unfold conclude at h
    rw [hlive] at h
    simp only at h
    obtain ⟨moves, hmoves, hserved⟩ := Timeline.complete_follows remote config.limits horizon turn
      (Run.ofActions config actions) admitted.shared
    generalize Timeline.complete remote config.limits horizon turn (Run.ofActions config actions)
      admitted.shared = t at h hmoves hserved
    have hfollows : ∃ begun, (s.request config actions).2.live[s.live.length]? = some begun ∧
        Run.follow? remote config.limits moves (begun, (s.request config actions).2.shared) =
          some (t.run, t.shared) := by
      rw [hrequest]
      exact ⟨_, hlive, hmoves⟩
    split at h
    · rename_i hdeparture
      cases h
      exact ⟨moves, t.run, t.shared, ⟨⟨hadmitted, hfollows⟩, hserved hdeparture⟩, rfl⟩
    · cases h
  · cases h
  · cases h

/-! ## Some actions and a sync -/

/-- A like, without anything to look up. -/
def sampleLike : Action := .queued "ann" .likePost (.ofPost "p1") ⟨"a1"⟩ .epoch

/-- A follow, which is not an operation of the remote system. -/
def sampleFollow : Action := .queued "ann" .follow (.ofTopic "t") ⟨"a2"⟩ .epoch

/-- A like of a post that is looked up, made before the epoch. -/
def sampleEarly : Action :=
  .queued "ann" .likePost ((Payload.ofPost "p2").about "post" "p2") ⟨"a3"⟩ ⟨-5, by decide⟩

/-- A join. -/
def sampleJoin : Action := .queued "ann" .joinTopic (.ofTopic "t") ⟨"a4"⟩ .epoch

/-- Two topics: the likes share one. -/
def sampleBatch : List Action := [sampleLike, sampleFollow, sampleEarly]

/-- The post of the early like was modified after it. -/
def sampleScript : ScriptedRemote := ScriptedRemote.empty.modified ⟨.post, "p2"⟩ .epoch

/-- Whoever makes a call for the topic of the join breaks down. -/
def brokenScript : ScriptedRemote := { ScriptedRemote.empty with breakdownTopics := ["t"] }

/-- The two topics take turns. -/
def sampleMoves : List Move :=
  [.start 0, .start 1, .advance 0, .advance 1, .advance 0, .advance 1, .advance 0, .advance 0,
    .advance 0, .advance 0, .advance 0]

/-- One like was carried out, the other one lost its conflict, and the follow failed. -/
def sampleRun : Run where
  batch := 3
  tasks :=
    [.finished ⟨[sampleLike], [(Conflict.fresh sampleEarly .timestamp).resolve .remote], [], 2⟩,
      .finished ⟨[], [], [sampleFollow], 1⟩]
  places := none

/-- The progress after the sync, and the log of the remote system. -/
def sampleShared : Shared ScriptedRemote where
  progress := ⟨3, 3, 1, 1, 1⟩
  remote := { sampleScript with calls := [.likePost "p1"], lookups := [⟨.post, "p2"⟩] }

theorem sample_serves : (start sampleScript).Serves ScriptedRemote.remote .default sampleBatch
    sampleMoves sampleRun sampleShared :=
  ⟨⟨rfl, _, rfl, by decide +kernel⟩, rfl⟩

end Outbox.Syncer
