import Outbox.Settlement
import Outbox.Sync.Flight
import Outbox.Sync.Timeline

/-!
# The syncer

A `Syncer` admits one sync at a time. A request while one is running is turned away and changes
nothing. An admitted sync is `live` until it ends, by returning, by being dropped, or by a
breakdown, and every ending frees the place for the next one. Settling a conflict by hand needs no
place: it reaches the remote system only.

`Syncer` models `SyncEngine`: `request` is the `acquire` of its `SyncGuard` and `finish` the drop of
it, `sync` is `perform_differential_sync`, and `settle` is `resolve_manually`.
-/

namespace Outbox

variable {σ : Type}

/-- The flight, what the syncs share, and the syncs under way. -/
structure Syncer (σ : Type) where
  flight : Flight
  shared : Shared σ
  live : List Run
  deriving DecidableEq, Repr

/-- The largest bound on the number of topics at a time that a sync can keep. -/
def mostPlaces : Nat := 0x1FFFFFFFFFFFFFFF

/-- How a request was met. -/
inductive Admission where
  | admitted
  /-- Another sync is running. -/
  | busy
  /-- The sync broke down at once, because its bound is too large. -/
  | brokeDown
  deriving DecidableEq, Repr

/-- What a request is told that is turned away. -/
def busyMessage : String := "sync already in progress"

namespace Syncer

/-- A syncer before its first sync. -/
def start (remote : σ) : Syncer σ := ⟨.idle, ⟨.none, remote⟩, []⟩

/-- Ends a live sync. -/
def finish (s : Syncer σ) (index : Nat) : Syncer σ :=
  { s with live := s.live.eraseIdx index, flight := (s.flight.on .finished).1 }

/-- Asks for a sync of a batch. An admitted sync comes last among the live ones. -/
def request (s : Syncer σ) (config : Config) (actions : List Action) : Admission × Syncer σ :=
  let (flight, transition) := s.flight.on (.requested actions.length)
  if transition = .started then
    let admitted : Syncer σ :=
      { flight
        shared := { s.shared with progress := .ofBatch actions.length }
        live := s.live ++ [Run.ofActions config actions] }
    if config.topicsAtATime ≤ mostPlaces then (.admitted, admitted)
    else (.brokeDown, admitted.finish s.live.length)
  else (.busy, { s with flight })

/-- A live sync makes a move. -/
def step? (remote : Remote σ) (limits : Limits) (s : Syncer σ) (index : Nat) (move : Move) :
    Option (Syncer σ) :=
  match s.live[index]? with
  | none => none
  | some run =>
    (run.step? remote limits s.shared move).map fun (run, shared) =>
      { s with shared, live := s.live.set index run }

/-- Whether a sync is running. -/
def isBusy (s : Syncer σ) : Bool := s.flight.isRunning

/-- Settles a conflict by hand, whether or not a sync is running. -/
def settle (remote : Remote σ) (limits : Limits) (choice : Choice) (now : Timestamp)
    (c : Conflict) (turn : Turn) (s : Syncer σ) :
    Timed (Syncer σ) (Settlement.Ending × Conflict) :=
  let settled := c.settleByHand remote limits.delivery choice now turn s.shared.remote
  { settled with state := { s with shared := { s.shared with remote := settled.state } } }

/-! ## Whole syncs in virtual time -/

/-- How a request for a sync ended. -/
inductive Outcome where
  | report (r : Report)
  | busy
  | dropped
  | brokeDown
  deriving DecidableEq, Repr

/-- Runs a live sync to its end or drops it at the horizon, and frees its place. -/
def conclude (remote : Remote σ) (config : Config) (horizon : Option Nat) (turn : Turn)
    (s : Syncer σ) (index : Nat) : Timed (Syncer σ) Outcome :=
  match s.live[index]? with
  | none => ⟨.busy, 0, turn, s⟩
  | some run =>
    let t := Timeline.complete remote config.limits horizon turn run s.shared
    let outcome := if t.caller.departure = some .served then .report t.run.report else .dropped
    ⟨outcome, t.now, t.caller.turn, { s with shared := t.shared }.finish index⟩

/-- Asks for a sync and runs it. -/
def sync (remote : Remote σ) (config : Config) (horizon : Option Nat) (actions : List Action)
    (turn : Turn) (s : Syncer σ) : Timed (Syncer σ) Outcome :=
  match s.request config actions with
  | (.admitted, admitted) => conclude remote config horizon turn admitted s.live.length
  | (.busy, s) => ⟨.busy, 0, turn, s⟩
  | (.brokeDown, s) => ⟨.brokeDown, 0, turn, s⟩

/-- Two requests, one right after the other, and whether a sync is running then. A sync without
actions ends at once; any other is still running when the second request comes. -/
def syncPair (remote : Remote σ) (config : Config) (first second : List Action) (turn : Turn)
    (s : Syncer σ) : Timed (Syncer σ) (Outcome × Outcome × Bool) :=
  if first.isEmpty then
    let one := sync remote config none first turn s
    let (admission, requested) := one.state.request config second
    let busy := requested.isBusy && !second.isEmpty
    match admission with
    | .admitted =>
      let two := conclude remote config none one.turn requested one.state.live.length
      { two with result := (one.result, two.result, busy) }
    | .busy => ⟨(one.result, .busy, busy), 0, one.turn, requested⟩
    | .brokeDown => ⟨(one.result, .brokeDown, busy), 0, one.turn, requested⟩
  else
    match s.request config first with
    | (.admitted, requested) =>
      let (_, again) := requested.request config second
      let one := conclude remote config none turn again s.live.length
      { one with result := (one.result, .busy, again.isBusy) }
    | (.busy, s) => ⟨(.busy, .busy, s.isBusy), 0, turn, s⟩
    | (.brokeDown, s) =>
      let two := sync remote config none second turn s
      { two with result := (.brokeDown, two.result, false) }

end Syncer
end Outbox
