import Outbox.Proofs.Sync.Served
import Mathlib.Logic.Relation

/-!
# One sync at a time

A `Crowd` is a syncer and the callers that have asked it for a sync and have not left yet. Some of
them hold the place of the running sync. Callers come at any time. A sync makes its moves, and its
caller leaves with the report, is dropped, or breaks down: these are the ways to give the place
back. A caller that was turned away leaves as well. Meanwhile others may reach the remote system
and the progress.

* `Crowd.Kept`: at most one caller holds the place, and the flight and the live syncs agree with
  it. `Crowd.Kept.step` says that no step breaks this.
* `Crowd.singleFlight`: so it is in every crowd that can come about, and who is turned away
  changes nothing by coming or by leaving.
-/

namespace Outbox

/-- A caller that has asked for a sync of a batch and has not left. -/
structure Visitor where
  batch : List Action
  /-- Whether it holds the place of the running sync. -/
  holds : Bool
  deriving DecidableEq, Repr

/-- How a caller leaves. -/
inductive Exit where
  | returned
  | dropped
  /-- By a breakdown. -/
  | unwound
  deriving DecidableEq, Repr

/-- A syncer and its callers, in the order in which they came. -/
structure Crowd (σ : Type) where
  syncer : Syncer σ
  visitors : List Visitor
  deriving DecidableEq, Repr

namespace Crowd

variable {σ : Type}

/-- The callers that hold the place. -/
def holders (c : Crowd σ) : List Visitor := c.visitors.filter (·.holds)

/-- Where the sync of a caller stands among the live ones, if the caller holds the place. -/
def rank (c : Crowd σ) (i : Nat) : Nat := (c.visitors.take i).countP (·.holds)

/-- Nobody has come yet. -/
def opened (remote : σ) : Crowd σ := ⟨.start remote, []⟩

/-- Someone comes and asks for a sync. -/
def arrive (c : Crowd σ) (config : Config) (actions : List Action) : Crowd σ where
  syncer := (c.syncer.request config actions).2
  visitors := c.visitors ++ [⟨actions, (c.syncer.request config actions).1 = .admitted⟩]

/-- A caller leaves. Who holds the place gives it back. -/
def leave (c : Crowd σ) (i : Nat) : Crowd σ :=
  match c.visitors[i]? with
  | none => c
  | some v =>
    { syncer := if v.holds then c.syncer.finish (c.rank i) else c.syncer
      visitors := c.visitors.eraseIdx i }

/-- A sync returns when its run is done. The other ways out are open at all times, and who was
turned away returns at once. -/
def MayLeave (c : Crowd σ) (i : Nat) : Exit → Prop
  | .returned => ∀ v, c.visitors[i]? = some v → v.holds = true →
    ∃ run, c.syncer.live[c.rank i]? = some run ∧ run.isDone = true
  | .dropped => True
  | .unwound => True

/-- What can happen to a crowd. -/
inductive Step (remote : Remote σ) : Crowd σ → Crowd σ → Prop where
  | arrive (c : Crowd σ) (config : Config) (actions : List Action) :
      Step remote c (c.arrive config actions)
  /-- A live sync makes a move. -/
  | move {c : Crowd σ} {limits : Limits} {index : Nat} {move : Move} {syncer : Syncer σ} :
      c.syncer.step? remote limits index move = some syncer → Step remote c { c with syncer }
  /-- A conflict is settled by hand, or a task of a dropped sync has its last turn. -/
  | elsewhere (c : Crowd σ) (shared : Shared σ) :
      Step remote c { c with syncer := { c.syncer with shared } }
  | leave {c : Crowd σ} {i : Nat} (exit : Exit) : c.MayLeave i exit → Step remote c (c.leave i)

/-- The crowds that can come about. -/
def Reachable (remote : Remote σ) (start : σ) : Crowd σ → Prop :=
  Relation.ReflTransGen (Step remote) (opened start)

/-! ## Who holds the place -/

section Visitors

variable {vs : List Visitor} {i : Nat} {v : Visitor}

/-- A caller that holds no place is missed by nobody. -/
theorem filter_eraseIdx_of_not_holds (h : vs[i]? = some v) (hv : v.holds = false) :
    (vs.eraseIdx i).filter (·.holds) = vs.filter (·.holds) := by
  induction vs generalizing i with
  | nil => cases h
  | cons v' vs ih =>
    cases i with
    | zero =>
      cases h
      rw [List.eraseIdx_cons_zero, List.filter_cons_of_neg (by rw [hv]; exact Bool.false_ne_true)]
    | succ i => rw [List.eraseIdx_cons_succ, List.filter_cons, List.filter_cons, ih h]

/-- A caller that holds the place has its rank among those that do. -/
theorem filter_eraseIdx_of_holds (h : vs[i]? = some v) (hv : v.holds = true) :
    (vs.filter (·.holds))[(vs.take i).countP (·.holds)]? = some v ∧
      (vs.eraseIdx i).filter (·.holds) =
        (vs.filter (·.holds)).eraseIdx ((vs.take i).countP (·.holds)) := by
  induction vs generalizing i with
  | nil => cases h
  | cons v' vs ih =>
    cases i with
    | zero =>
      cases h
      rw [List.take_zero, List.countP_nil, List.filter_cons_of_pos hv]
      exact ⟨rfl, rfl⟩
    | succ i =>
      obtain ⟨hrank, herase⟩ := ih h
      rw [List.take_succ_cons, List.eraseIdx_cons_succ]
      by_cases hv' : v'.holds = true
      · rw [List.filter_cons_of_pos hv', List.filter_cons_of_pos hv', List.countP_cons_of_pos hv']
        exact ⟨hrank, by rw [herase]; rfl⟩
      · rw [List.filter_cons_of_neg hv', List.filter_cons_of_neg hv', List.countP_cons_of_neg hv']
        exact ⟨hrank, herase⟩

end Visitors

/-! ## The invariant -/

/-- What a flight is like while these callers hold the place. -/
def flightOf : List Visitor → Flight
  | [] => .idle
  | v :: _ => .running v.batch.length

/-- At most one caller holds the place, the flight is that of its batch, and its sync is the only
live one. -/
structure Kept (c : Crowd σ) : Prop where
  single : c.holders.length ≤ 1
  flight : c.syncer.flight = flightOf c.holders
  live : c.syncer.live.map (·.batch) = c.holders.map (·.batch.length)

theorem kept_opened (remote : σ) : (opened remote).Kept := ⟨Nat.zero_le 1, rfl, rfl⟩

variable {remote : Remote σ} {c c' : Crowd σ}

theorem Kept.idle_iff (h : c.Kept) : c.syncer.flight = .idle ↔ c.holders = [] := by
  rw [h.flight]
  cases c.holders with
  | nil => exact iff_of_true rfl rfl
  | cons v vs => exact iff_of_false nofun nofun

theorem Kept.running_iff (h : c.Kept) (n : Nat) :
    c.syncer.flight = .running n ↔ ∃ v, c.holders = [v] ∧ v.batch.length = n := by
  have hsingle := h.single
  rw [h.flight]
  constructor
  · intro hn
    cases hholders : c.holders with
    | nil =>
      rw [hholders] at hn
      cases hn
    | cons v vs =>
      rw [hholders] at hn hsingle
      cases hn
      have hnil : vs = [] := by simpa using hsingle
      exact ⟨v, by rw [hnil], rfl⟩
  · rintro ⟨v, hv, rfl⟩
    rw [hv]
    rfl

/-! ## Coming -/

theorem arrive_of_idle (config : Config) (actions : List Action) (hidle : c.syncer.flight = .idle)
    (hbound : config.topicsAtATime ≤ mostPlaces) :
    c.arrive config actions = {
      syncer := {
        flight := .running actions.length
        shared := ⟨.ofBatch actions.length, c.syncer.shared.remote⟩
        live := c.syncer.live ++ [Run.ofActions config actions] }
      visitors := c.visitors ++ [⟨actions, true⟩] } := by
  unfold arrive
  rw [Syncer.request_of_idle config actions hidle hbound]
  rfl

theorem arrive_of_unbounded (config : Config) (actions : List Action)
    (hidle : c.syncer.flight = .idle) (hbound : ¬ config.topicsAtATime ≤ mostPlaces) :
    c.arrive config actions = {
      syncer := { c.syncer with shared := ⟨.ofBatch actions.length, c.syncer.shared.remote⟩ }
      visitors := c.visitors ++ [⟨actions, false⟩] } := by
  unfold arrive
  rw [Syncer.request_of_unbounded config actions hidle hbound]
  rfl

theorem arrive_of_running (config : Config) (actions : List Action) {n : Nat}
    (hrunning : c.syncer.flight = .running n) :
    c.arrive config actions = { c with visitors := c.visitors ++ [⟨actions, false⟩] } := by
  unfold arrive
  rw [Syncer.request_of_running config actions hrunning]
  rfl

theorem holders_append (s : Syncer σ) (vs : List Visitor) (actions : List Action) (holds : Bool) :
    (⟨s, vs ++ [⟨actions, holds⟩]⟩ : Crowd σ).holders =
      vs.filter (·.holds) ++ if holds then [⟨actions, true⟩] else [] := by
  unfold holders
  rw [List.filter_append]
  cases holds <;> rfl

/-- Whoever comes when no sync is running gets the place, or has given it back by a breakdown. -/
theorem Kept.granted (h : c.Kept) (hidle : c.syncer.flight = .idle) (config : Config)
    (actions : List Action) :
    if config.topicsAtATime ≤ mostPlaces then
      (c.arrive config actions).holders = [⟨actions, true⟩] ∧
        (c.arrive config actions).syncer.flight = .running actions.length
    else
      (c.syncer.flight.on (.requested actions.length)).1.on .finished = (.idle, .released) ∧
        (c.arrive config actions).holders = [] ∧
        (c.arrive config actions).syncer.flight = .idle := by
  have hnone := h.idle_iff.mp hidle
  unfold holders at hnone
  split
  · rename_i hbound
    rw [arrive_of_idle config actions hidle hbound, holders_append, hnone]
    exact ⟨rfl, rfl⟩
  · rename_i hbound
    rw [arrive_of_unbounded config actions hidle hbound, holders_append, hnone, hidle]
    exact ⟨rfl, rfl, rfl⟩

/-- Whoever comes breaks nothing. -/
theorem Kept.arrive (h : c.Kept) (config : Config) (actions : List Action) :
    (c.arrive config actions).Kept := by
  cases hflight : c.syncer.flight with
  | idle =>
    have hnone := h.idle_iff.mp hflight
    have hlive := h.live
    have hgranted := h.granted hflight config actions
    rw [hnone] at hlive
    split at hgranted
    · rename_i hbound
      obtain ⟨hholders, hrunning⟩ := hgranted
      refine ⟨?_, ?_, ?_⟩
      · rw [hholders]
        exact Nat.le_refl 1
      · rw [hholders, hrunning]
        rfl
      · rw [hholders, arrive_of_idle config actions hflight hbound, List.map_append, hlive]
        rfl
    · rename_i hbound
      obtain ⟨-, hholders, hidle⟩ := hgranted
      refine ⟨?_, ?_, ?_⟩
      · rw [hholders]
        exact Nat.zero_le 1
      · rw [hholders, hidle]
        rfl
      · rw [hholders, arrive_of_unbounded config actions hflight hbound]
        exact hlive
  | running n =>
    -- Whoever is turned away joins the crowd, but not those that hold the place.
    have hholders : (c.arrive config actions).holders = c.holders := by
      rw [arrive_of_running config actions hflight, holders_append]
      exact List.append_nil _
    refine ⟨?_, ?_, ?_⟩
    · rw [hholders]
      exact h.single
    · rw [hholders, arrive_of_running config actions hflight]
      exact h.flight
    · rw [hholders, arrive_of_running config actions hflight]
      exact h.live

/-! ## Going on and leaving -/

/-- A move keeps the flight and the batches of the live syncs. -/
theorem step?_batches {limits : Limits} {index : Nat} {move : Move} {s s' : Syncer σ}
    (h : s.step? remote limits index move = some s') :
    s'.flight = s.flight ∧ s'.live.map (·.batch) = s.live.map (·.batch) := by
  unfold Syncer.step? at h
  split at h
  · cases h
  · rename_i run hrun
    obtain ⟨⟨run', shared⟩, hmove, rfl⟩ := Option.map_eq_some_iff.mp h
    exact ⟨rfl, map_set_of_eq hrun (Run.step?_batch hmove)⟩

/-- A caller that holds the place is the only one, and its sync comes first. -/
theorem Kept.holder (h : c.Kept) {i : Nat} {v : Visitor} (hv : c.visitors[i]? = some v)
    (hholds : v.holds = true) : c.holders = [v] ∧ c.rank i = 0 := by
  obtain ⟨hrank, -⟩ := filter_eraseIdx_of_holds hv hholds
  have hsingle := h.single
  unfold holders rank at *
  obtain ⟨v', hv'⟩ : ∃ v', c.visitors.filter (·.holds) = [v'] := by
    refine List.length_eq_one_iff.mp (Nat.le_antisymm hsingle ?_)
    exact Nat.lt_of_le_of_lt (Nat.zero_le _) (List.getElem?_eq_some_iff.mp hrank).1
  rw [hv'] at hrank ⊢
  cases hcount : (c.visitors.take i).countP (·.holds) with
  | zero =>
    rw [hcount] at hrank
    cases hrank
    exact ⟨rfl, rfl⟩
  | succ n =>
    rw [hcount] at hrank
    cases hrank

/-- A caller that holds the place gives it back by leaving. -/
theorem Kept.leave_of_holds (h : c.Kept) {i : Nat} {v : Visitor} (hv : c.visitors[i]? = some v)
    (hholds : v.holds = true) :
    c.syncer.flight.on .finished = (.idle, .released) ∧ (c.leave i).syncer.flight = .idle ∧
      (c.leave i).holders = [] ∧ (c.leave i).syncer.live = [] := by
  obtain ⟨-, herase⟩ := filter_eraseIdx_of_holds hv hholds
  obtain ⟨hholders, hrank⟩ := h.holder hv hholds
  have hflight := h.flight
  have hlive := h.live
  rw [hholders] at hflight hlive
  obtain ⟨run, hrun⟩ : ∃ run, c.syncer.live = [run] := by
    have hlength := congrArg List.length hlive
    rw [List.length_map] at hlength
    exact List.length_eq_one_iff.mp hlength
  have hleave : c.leave i = ⟨c.syncer.finish 0, c.visitors.eraseIdx i⟩ := by
    unfold leave
    rw [hv, hrank]
    simp only [hholds, ↓reduceIte]
  rw [hleave]
  unfold Syncer.finish
  rw [hflight, hrun]
  refine ⟨rfl, rfl, ?_, rfl⟩
  unfold holders rank at *
  rw [herase, hholders, hrank]
  rfl

/-- A caller that was turned away changes nothing by leaving. -/
theorem leave_of_not_holds {i : Nat} {v : Visitor} (hv : c.visitors[i]? = some v)
    (hholds : v.holds = false) :
    (c.leave i).syncer = c.syncer ∧ (c.leave i).holders = c.holders := by
  have hleave : c.leave i = ⟨c.syncer, c.visitors.eraseIdx i⟩ := by
    unfold leave
    rw [hv]
    simp only [hholds, Bool.false_eq_true, ↓reduceIte]
  rw [hleave]
  exact ⟨rfl, filter_eraseIdx_of_not_holds hv hholds⟩

/-- **No step breaks the invariant.** -/
theorem Kept.step (h : c.Kept) (hstep : Step remote c c') : c'.Kept := by
  cases hstep with
  | arrive config actions => exact h.arrive config actions
  | move hmove =>
    obtain ⟨hflight, hlive⟩ := step?_batches hmove
    exact ⟨h.single, hflight.trans h.flight, hlive.trans h.live⟩
  | elsewhere shared => exact ⟨h.single, h.flight, h.live⟩
  | @leave i exit _ =>
    cases hv : c.visitors[i]? with
    | none =>
      have hsame : c.leave i = c := by
        unfold leave
        rw [hv]
      rw [hsame]
      exact h
    | some v =>
      cases hholds : v.holds with
      | true =>
        obtain ⟨-, hflight, hholders, hlive⟩ := h.leave_of_holds hv hholds
        refine ⟨?_, ?_, ?_⟩
        · rw [hholders]
          exact Nat.zero_le 1
        · rw [hholders]
          exact hflight
        · rw [hholders, hlive]
          rfl
      | false =>
        obtain ⟨hsyncer, hholders⟩ := leave_of_not_holds hv hholds
        refine ⟨?_, ?_, ?_⟩
        · rw [hholders]
          exact h.single
        · rw [hsyncer, hholders]
          exact h.flight
        · rw [hsyncer, hholders]
          exact h.live

theorem Reachable.kept {start : σ} (h : Reachable remote start c) : c.Kept := by
  induction h with
  | refl => exact kept_opened start
  | tail _ hstep ih => exact ih.step hstep

/-! ## What callers can rely on -/

/-- The syncer and its callers agree about who holds the place. -/
structure SingleFlight (remote : Remote σ) (c : Crowd σ) : Prop where
  /-- No sync is running if nobody holds the place. -/
  idle : c.syncer.flight = .idle ↔ c.holders = []
  /-- A sync is running if one caller holds the place, and it is the sync of its batch. -/
  running : ∀ n, c.syncer.flight = .running n ↔ ∃ v, c.holders = [v] ∧ v.batch.length = n
  /-- The live sync is that of the caller. -/
  live : c.syncer.live.map (·.batch) = c.holders.map (·.batch.length)
  /-- Whoever comes when no sync is running gets the place, or has released it by a breakdown. -/
  granted : c.syncer.flight = .idle → ∀ config actions,
    if config.topicsAtATime ≤ mostPlaces then
      (c.arrive config actions).holders = [⟨actions, true⟩] ∧
        (c.arrive config actions).syncer.flight = .running actions.length
    else
      (c.syncer.flight.on (.requested actions.length)).1.on .finished = (.idle, .released) ∧
        (c.arrive config actions).holders = [] ∧ (c.arrive config actions).syncer.flight = .idle
  /-- Whoever holds the place releases it by leaving. -/
  released : ∀ i v, c.visitors[i]? = some v → v.holds = true →
    c.syncer.flight.on .finished = (.idle, .released) ∧ (c.leave i).syncer.flight = .idle
  /-- Whoever comes while a sync is running is turned away, and changes nothing. -/
  rejected : ∀ n, c.syncer.flight = .running n → ∀ config actions,
    c.syncer.request config actions = (.busy, c.syncer) ∧
      c.arrive config actions = { c with visitors := c.visitors ++ [⟨actions, false⟩] }
  /-- Its whole call, from its coming to its leaving, changes nothing. -/
  rejectedCall : ∀ n, c.syncer.flight = .running n → ∀ config horizon actions turn,
    c.syncer.sync remote config horizon actions turn = ⟨.busy, 0, turn, c.syncer⟩
  /-- Whoever was turned away changes nothing by leaving at any later time. -/
  left : ∀ i v, c.visitors[i]? = some v → v.holds = false →
    (c.leave i).syncer = c.syncer ∧ (c.leave i).holders = c.holders

/-- **One sync at a time**, in whatever order callers come and leave. -/
theorem singleFlight {start : σ} (h : Reachable remote start c) : c.SingleFlight remote where
  idle := h.kept.idle_iff
  running := h.kept.running_iff
  live := h.kept.live
  granted := h.kept.granted
  released i v hv hholds := by
    obtain ⟨hreleased, hfree, -, -⟩ := h.kept.leave_of_holds hv hholds
    exact ⟨hreleased, hfree⟩
  rejected n hn config actions :=
    ⟨Syncer.request_of_running config actions hn, arrive_of_running config actions hn⟩
  rejectedCall n hn config horizon actions turn := by
    unfold Syncer.sync
    rw [Syncer.request_of_running config actions hn]
  left i v hv hholds := leave_of_not_holds hv hholds

/-- A second caller comes while the first one is served. -/
def sampleCrowd : Crowd ScriptedRemote :=
  ((opened Syncer.sampleScript).arrive .default Syncer.sampleBatch).arrive .default []

theorem singleFlight_sample :
    Reachable ScriptedRemote.remote Syncer.sampleScript sampleCrowd ∧
      sampleCrowd.syncer.flight = .running 3 ∧
      sampleCrowd.SingleFlight ScriptedRemote.remote := by
  have hreachable : Reachable ScriptedRemote.remote Syncer.sampleScript sampleCrowd :=
    (Relation.ReflTransGen.single (.arrive _ .default Syncer.sampleBatch)).tail
      (.arrive _ .default [])
  exact ⟨hreachable, rfl, singleFlight hreachable⟩

end Crowd
end Outbox
