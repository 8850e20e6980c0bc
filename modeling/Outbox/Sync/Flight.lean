/-!
# One sync at a time

A `Flight` knows whether a sync is running and how many actions it was given. A request is
granted only when none is running, and the end of a sync frees the place.

`Flight` models `EngineState`: `on` is its `on_event`, `Event` models `EngineEvent` and `Response`
models `Transition`.
-/

namespace Outbox

/-- Whether a sync is running. -/
inductive Flight where
  | idle
  | running (batch : Nat)
  deriving DecidableEq, Repr

namespace Flight

/-- What can happen to a flight. -/
inductive Event where
  /-- Someone asks to sync this many actions. -/
  | requested (batch : Nat)
  /-- The running sync ended, one way or another. -/
  | finished
  deriving DecidableEq, Repr

/-- What an event led to. -/
inductive Response where
  | started
  | rejected
  | released
  | ignored
  deriving DecidableEq, Repr

/-- The state after an event, and what the event led to. -/
def on : Flight → Event → Flight × Response
  | .idle, .requested n => (.running n, .started)
  | .running n, .requested _ => (.running n, .rejected)
  | .running _, .finished => (.idle, .released)
  | .idle, .finished => (.idle, .ignored)

/-- Whether a sync is running. -/
def isRunning : Flight → Bool
  | .idle => false
  | .running _ => true

/-- The number of actions of the running sync. -/
def batch? : Flight → Option Nat
  | .idle => none
  | .running n => some n

/-- The states and transitions of a list of events. -/
def trace : Flight → List Event → List (Flight × Response)
  | _, [] => []
  | f, e :: rest => f.on e :: trace (f.on e).1 rest

/-- The written name of a transition. -/
def Response.name : Response → String
  | .started => "Started"
  | .rejected => "Rejected"
  | .released => "Released"
  | .ignored => "Ignored"

end Flight
end Outbox
