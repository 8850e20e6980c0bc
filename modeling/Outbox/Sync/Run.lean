import Outbox.Sync.Task

/-!
# A sync under way

A `Run` is the work on all topics of a batch, one task for each, in the order of the topics. Where
the number of topics at a time is bounded, a task needs a place to begin and gives it back when it
ends. The tasks share the published progress and the remote system.

`Run.step?` makes one move of one task. Every order of moves is possible, so a fact about all
schedules is a fact about all lists of moves.

`Run` models the tasks that `perform_differential_sync` begins and waits for, and `places` the
permits of its semaphore.
-/

namespace Outbox

variable {σ : Type}

/-- The tasks of a sync and the places that are free, if they are bounded. -/
structure Run where
  /-- The number of actions that were submitted. -/
  batch : Nat
  tasks : List Task
  places : Option Nat
  deriving DecidableEq, Repr

/-- What the tasks of a sync share with each other and with later syncs. -/
structure Shared (σ : Type) where
  progress : Progress
  remote : σ
  deriving DecidableEq, Repr

/-- A move of the task with an index. -/
inductive Move where
  /-- It takes a place and begins. -/
  | start (task : Nat)
  /-- It makes its next step. -/
  | advance (task : Nat)
  /-- A limit cuts off the answer that it waits for. -/
  | expire (task : Nat)
  deriving DecidableEq, Repr

namespace Run

/-- The run of a batch: all tasks wait. A bound of 0 is no bound. -/
def ofActions (config : Config) (actions : List Action) : Run where
  batch := actions.length
  tasks := (TopicQueue.ofActions config.fallbackTopic actions).map fun q => .waiting q.actions
  places := if config.topicsAtATime = 0 then none else some config.topicsAtATime

/-- Whether all tasks have ended. -/
def isDone (r : Run) : Bool := r.tasks.all Task.isEnded

/-- What the tasks that finished found out, in the order of the topics. -/
def report (r : Run) : Report := r.tasks.foldl (fun acc t => acc.append t.contribution) .empty

/-- Whether a task may begin. -/
def hasPlace (r : Run) : Bool := r.places != some 0

/-- Puts a task after a step in its place. A task that ended gives its place back, and an action
that is done with is counted. -/
def put (r : Run) (shared : Shared σ) (index : Nat) (stride : Stride) (remote : σ) :
    Run × Shared σ :=
  ({ r with
      tasks := r.tasks.set index stride.task
      places := if stride.task.isEnded then r.places.map (· + 1) else r.places },
    { progress :=
        match stride.done with
        | some (fate, conflicted) => shared.progress.count fate conflicted
        | none => shared.progress
      remote })

/-- Makes a move, if it is possible. -/
def step? (remote : Remote σ) (limits : Limits) (r : Run) (shared : Shared σ) :
    Move → Option (Run × Shared σ)
  | .start i =>
    match r.tasks[i]? with
    | some (.waiting queue) =>
      if r.hasPlace then
        some ({ r with
          tasks := r.tasks.set i (.active .between queue .empty)
          places := r.places.map (· - 1) }, shared)
      else none
    | _ => none
  | .advance i =>
    match r.tasks[i]? with
    | some task =>
      (task.advance? remote shared.remote).map fun (stride, s) => r.put shared i stride s
    | none => none
  | .expire i =>
    match r.tasks[i]? with
    | some task => (task.expire? limits).map fun stride => r.put shared i stride shared.remote
    | none => none

/-- An upper bound of the moves left. -/
def work (r : Run) : Nat := r.tasks.foldr (fun task left => task.work + left) 0

end Run
end Outbox
