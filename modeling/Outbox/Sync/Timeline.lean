import Outbox.Sync.Run

/-!
# A sync in virtual time

A `Timeline` chooses the moves of a run. Tasks begin in the order of the topics and take turns: a
task goes on until it has to wait, for an answer that takes time, for a place, or because its turn
is used up. Tasks that can go on at the same moment do so in the order in which they began to
wait, and so do those that wait for a place. When all tasks wait for answers, the time jumps to
the next moment at which one of them can go on.

Turns come in rounds. A round ends after `Turn.roundLength` turns or when no task can go on. Then
the tasks that rested can go on, the last one to rest first, and the caller of the sync takes its
turn if it has one to take: it waits for the tasks in the order of the topics, and when all have
ended it leaves with the report. A caller with a horizon leaves when it takes a turn at the horizon
or later and some task has not ended. Tasks that are left behind have one more turn each, before
the tasks of the next sync.

A limit on calls runs from the first call of an action and a limit on look-ups from the look-up.

A timeline models what drives the tasks of `perform_differential_sync`: a runtime of one thread,
whose clock stands still while any of them can go on.
-/

namespace Outbox

variable {σ : Type}

/-- How a task goes on. -/
inductive Wake where
  /-- With the answer, or with its next step. -/
  | proceed
  /-- Without the answer. -/
  | giveUp
  deriving DecidableEq, Repr

/-- A task that can have a turn: it lets a time pass, if there is one, and goes on. -/
structure Entry where
  task : Nat
  wake : Wake
  pause : Nat
  deriving DecidableEq, Repr

/-- A moment at which a task will go on. -/
structure Timer where
  time : Nat
  task : Nat
  wake : Wake
  deriving DecidableEq, Repr

/-- How the caller of a sync left. -/
inductive Departure where
  /-- With the report. -/
  | served
  /-- Without it, at the horizon. -/
  | dropped
  deriving DecidableEq, Repr

/-- The caller of a sync. -/
structure Caller where
  /-- The task that it waits for; the tasks before it have ended. -/
  awaited : Nat
  /-- What is left of its turn, or its next turn. -/
  turn : Turn
  /-- Whether it takes its turn at the end of the round. -/
  isUp : Bool
  departure : Option Departure
  deriving DecidableEq, Repr

/-- A run, and when its tasks go on. -/
structure Timeline (σ : Type) where
  now : Nat
  /-- The task whose turn it is, and how it goes on. -/
  current : Option (Nat × Wake)
  /-- What is left of the turn. -/
  turn : Turn
  /-- The turns of this round. -/
  turns : Nat
  /-- The tasks that can go on now. -/
  ready : List Entry
  /-- The tasks that rest, the last one to rest first. -/
  resting : List Entry
  /-- The tasks that wait for answers. -/
  timers : List Timer
  /-- The tasks that wait for a place. -/
  line : List Nat
  /-- When the action that a task is at has to be carried out. -/
  deadlines : List (Nat × Nat)
  caller : Caller
  run : Run
  shared : Shared σ

namespace Timeline

/-! ## The caller -/

/-- The entry of a task of an earlier sync, which ends in its turn. -/
def stray (run : Run) : Entry := ⟨run.tasks.length, .proceed, 0⟩

/-- The tasks, of this sync and of earlier ones, that have not had their last turn. -/
def leftBehind (t : Timeline σ) : Nat :=
  t.ready.count (stray t.run) + t.run.tasks.countP fun task => !task.isEnded

/-- The caller takes its turn. Every task that has ended is one wait of it. A caller that has no
waits left takes another turn in the next round, and does not look at the horizon if it had none
from the start. -/
def callerTurn (t : Timeline σ) (horizon : Option Nat) : Timeline σ :=
  let before := t.caller.turn.waits
  let ended := ((t.run.tasks.drop t.caller.awaited).takeWhile Task.isEnded).length
  let awaited := t.caller.awaited + min ended before
  let waits := before - min ended before
  let caller : Caller :=
    if awaited = t.run.tasks.length then ⟨awaited, ⟨waits, true, t.leftBehind⟩, false, some .served⟩
    else if horizon.any (· ≤ t.now) ∧ before ≠ 0 then
      ⟨awaited, ⟨waits - 1, true, t.leftBehind⟩, false, some .dropped⟩
    else ⟨awaited, .full, waits == 0, none⟩
  { t with caller }

/-- The beginning of a run. The caller goes on with its turn. -/
def start (horizon : Option Nat) (turn : Turn) (run : Run) (shared : Shared σ) : Timeline σ :=
  let t : Timeline σ :=
    { now := 0, current := none, turn := .full, turns := 0
      ready := List.replicate turn.ahead (stray run) ++
        (List.range run.tasks.length).map fun i => ⟨i, .proceed, 0⟩
      resting := [], timers := [], line := [], deadlines := []
      caller := ⟨0, turn, true, none⟩
      run, shared }
  t.callerTurn horizon

/-! ## Turns and rounds -/

/-- Whether a task has not begun. -/
def isWaiting (t : Timeline σ) (i : Nat) : Bool :=
  match t.run.tasks[i]? with
  | some (.waiting _) => true
  | _ => false

/-- A task has its turn. A task that needs a place stands in line if there is none. -/
def take (t : Timeline σ) (e : Entry) : Timeline σ :=
  let t := { t with turns := t.turns + 1 }
  if 0 < e.pause then { t with timers := t.timers ++ [⟨t.now + e.pause, e.task, e.wake⟩] }
  else if t.isWaiting e.task then
    if t.run.hasPlace then
      let turn := if t.run.places.isSome then Turn.full.spend else .full
      { t with current := some (e.task, e.wake), turn }
    else { t with line := t.line ++ [e.task] }
  else { t with current := some (e.task, e.wake), turn := .resumed }

/-- Lets the time jump to a moment. -/
def jump (t : Timeline σ) (time : Nat) : Timeline σ :=
  { t with
    now := time
    ready := (t.timers.filter (·.time == time)).map fun timer => ⟨timer.task, timer.wake, 0⟩
    timers := t.timers.filter (·.time != time) }

/-- The next moment at which something happens to a run that stands still: a task goes on, or the
caller leaves. -/
def await (t : Timeline σ) (horizon : Option Nat) : Option (Timeline σ) :=
  match (t.timers.map Timer.time).min?, horizon with
  | none, none => none
  | none, some h => some ({ t with now := h }.callerTurn horizon)
  | some time, none => some (t.jump time)
  | some time, some h =>
    some (if h ≤ time then { t with now := h }.callerTurn horizon else t.jump time)

/-- Ends a round. -/
def endRound (t : Timeline σ) (horizon : Option Nat) : Option (Timeline σ) :=
  let t := { t with turns := 0, ready := t.ready ++ t.resting, resting := [] }
  if t.caller.isUp then some (t.callerTurn horizon)
  else if t.ready.isEmpty then t.await horizon
  else some t

/-! ## Moves -/

/-- The move of a task. -/
def moveOf (t : Timeline σ) (i : Nat) : Wake → Move
  | .proceed => if t.isWaiting i then .start i else .advance i
  | .giveUp => .expire i

/-- Has the current task wait for an answer, with what is left of a limit. -/
def waitFor (t : Timeline σ) (i : Nat) (delay left : Option Nat) : Timeline σ :=
  let wait := t.turn.wait delay left
  let wake := if wait.inTime then Wake.proceed else .giveUp
  if wait.rests then { t with current := none, resting := ⟨i, wake, wait.millis⟩ :: t.resting }
  else if wait.millis = 0 then { t with current := some (i, wake), turn := wait.turn }
  else { t with current := none, timers := t.timers ++ [⟨t.now + wait.millis, i, wake⟩] }

/-- What is left of the limit for the action that a task is at. -/
def timeLeft (t : Timeline σ) (i : Nat) : Option Nat := (t.deadlines.lookup i).map (· - t.now)

/-- Begins the calls of an action, and with them its limit. -/
def beginCalls (t : Timeline σ) (limits : Limits) (i : Nat) : Timeline σ :=
  let t := { t with turn := t.turn.beginRequest }
  match limits.delivery with
  | some limit => { t with deadlines := (i, t.now + limit) :: t.deadlines }
  | none => t

/-- Whether a task is about to make the first call of an action, given how it stood before. -/
def beginsCalls (before after : Option Task) : Bool :=
  match before, after with
  | some (.active (.calling _ _ _ _ (some _)) _ _), _ => false
  | _, some (.active (.calling _ _ _ _ none) _ _) => true
  | _, _ => false

/-- A task has ended: the first in line can have its place, and the caller that waits for the task
takes a turn. -/
def afterEnd (t : Timeline σ) (i : Nat) : Timeline σ :=
  let caller := { t.caller with isUp := t.caller.isUp || t.caller.awaited == i }
  let ready := t.ready ++ (t.line.take 1).map fun next => ⟨next, .proceed, 0⟩
  { t with current := none, ready, line := t.line.drop 1, caller }

/-- Decides when a task goes on after a move. -/
def plan (t : Timeline σ) (limits : Limits) (i : Nat) : Timeline σ :=
  match t.run.tasks[i]? with
  | some (.active (.lookingUp _ _ none) _ _) =>
    { t with current := some (i, .proceed), turn := t.turn.beginRequest }
  | some (.active (.lookingUp _ _ (some reply)) _ _) => t.waitFor i reply.delay limits.lookup
  | some (.active (.calling _ _ _ _ (some reply)) _ _) => t.waitFor i reply.delay (t.timeLeft i)
  | some (.active _ _ _) => { t with current := some (i, .proceed) }
  | _ => t.afterEnd i

/-- Has the current task make its move. -/
def act (t : Timeline σ) (remote : Remote σ) (limits : Limits) (i : Nat) (wake : Wake) :
    Timeline σ :=
  match t.run.step? remote limits t.shared (t.moveOf i wake) with
  | none => { t with current := none }
  | some (run, shared) =>
    let before := t.run.tasks[i]?
    let t := { t with run, shared }
    let t := if beginsCalls before run.tasks[i]? then t.beginCalls limits i else t
    t.plan limits i

/-- What happens next, until the caller leaves. -/
def next? (remote : Remote σ) (limits : Limits) (horizon : Option Nat) (t : Timeline σ) :
    Option (Timeline σ) :=
  if t.caller.departure.isSome then none
  else
    match t.current, t.ready with
    | some (i, wake), _ => some (t.act remote limits i wake)
    | none, [] => t.endRound horizon
    | none, e :: ready =>
      if t.turns < Turn.roundLength then some ({ t with ready }.take e) else t.endRound horizon

/-- Lets up to `fuel` things happen. -/
def go (remote : Remote σ) (limits : Limits) (horizon : Option Nat) : Nat → Timeline σ → Timeline σ
  | 0, t => t
  | fuel + 1, t =>
    match t.next? remote limits horizon with
    | none => t
    | some t => go remote limits horizon fuel t

/-- An upper bound of what happens in a run: every turn and every end of a round goes back to a
move, to a task, or to a task of an earlier sync. -/
def events (ahead : Nat) (run : Run) : Nat := 16 * (ahead + run.work + 1)

/-- Runs a sync until its caller leaves. -/
def complete (remote : Remote σ) (limits : Limits) (horizon : Option Nat) (turn : Turn) (run : Run)
    (shared : Shared σ) : Timeline σ :=
  go remote limits horizon (events turn.ahead run) (start horizon turn run shared)

end Timeline
end Outbox
