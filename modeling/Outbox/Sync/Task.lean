import Outbox.Config
import Outbox.Remote.Ask
import Outbox.Report
import Outbox.Sync.Progress

/-!
# Working through one topic

A `Task` takes the actions of a topic one after the other: it looks for a conflict, settles it,
and makes the calls of the action unless the action lost. What it finds out it adds to a tally.

A task advances in small steps, between which other tasks may advance: it takes up an action, asks
the remote system, and goes on with the answer. `expire` goes on without the answer that was
asked for. A task that breaks down loses its tally.

`Task` models `sync_topic_group`, and `settle` its `settle_action`, cut at each point where these
wait for the remote system.
-/

namespace Outbox

/-- Where a task stands. -/
inductive Phase where
  /-- Before the next action. -/
  | between
  /-- The action's entity is looked up. -/
  | lookingUp (action : Action) (entity : Entity) (reply : Option (Reply (Option Timestamp)))
  /-- A call of the action is made; `later` are the calls after it. -/
  | calling (action : Action) (conflicted : Bool) (call : Call) (later : List Call)
      (reply : Option (Reply Unit))
  deriving DecidableEq, Repr

/-- The work on one topic. -/
inductive Task where
  /-- It has not begun. -/
  | waiting (queue : List Action)
  | active (phase : Phase) (queue : List Action) (tally : Report)
  | finished (tally : Report)
  | brokenDown (tally : Report)
  deriving DecidableEq, Repr

/-- A task after a step, and the action it is done with, if any: what became of it and whether it
had a conflict. -/
structure Stride where
  task : Task
  done : Option (Fate × Bool)
  deriving DecidableEq, Repr

namespace Task

/-- Whether a task has ended, one way or another. -/
def isEnded : Task → Bool
  | .waiting _ => false
  | .active _ _ _ => false
  | .finished _ => true
  | .brokenDown _ => true

/-- What a task adds to the report. -/
def contribution : Task → Report
  | .finished tally => tally
  | _ => .empty

/-- Goes on to the next action. -/
def close (queue : List Action) (tally : Report) (fate : Fate) (conflicted : Bool) : Stride :=
  ⟨.active .between queue tally, some (fate, conflicted)⟩

/-- Makes the calls that are left, or notes that the action was carried out. -/
def carryOut (a : Action) (conflicted : Bool) (calls : List Call) (queue : List Action)
    (tally : Report) : Stride :=
  match calls with
  | [] => close queue { tally with synced := tally.synced ++ [a] } .synced conflicted
  | call :: later => ⟨.active (.calling a conflicted call later none) queue tally, none⟩

/-- Notes that an action failed. -/
def fail (a : Action) (conflicted : Bool) (queue : List Action) (tally : Report) : Stride :=
  close queue { tally with failed := tally.failed ++ [a] } .failed conflicted

/-- Starts to carry out an action. -/
def attempt (a : Action) (conflicted : Bool) (queue : List Action) (tally : Report) : Stride :=
  match Operation.ofAction a with
  | .error _ => fail a conflicted queue tally
  | .ok op => carryOut a conflicted op.calls queue tally

/-- Whether the local action of a settled conflict is carried out. -/
def prevails (c : Conflict) : Bool := c.resolution.any Resolution.keepsLocal

/-- Settles the conflict, if there is one, and carries out the action unless it lost. -/
def settle (a : Action) (conflict : Option Conflict) (queue : List Action) (tally : Report) :
    Stride :=
  match conflict with
  | none => attempt a false queue tally
  | some c =>
    let tally := { tally with conflicts := tally.conflicts ++ [c.settle] }
    if prevails c.settle then attempt a true queue tally
    else close queue tally .lost true

/-- Takes up an action. -/
def takeUp (a : Action) (queue : List Action) (tally : Report) : Stride :=
  let tally := { tally with processed := tally.processed + 1 }
  match a.lookupTarget? with
  | none => settle a none queue tally
  | some entity => ⟨.active (.lookingUp a entity none) queue tally, none⟩

variable {σ : Type}

/-- The next step of a task that has begun and not ended. -/
def advance? (remote : Remote σ) (s : σ) : Task → Option (Stride × σ)
  | .active .between [] tally => some (⟨.finished tally, none⟩, s)
  | .active .between (a :: queue) tally => some (takeUp a queue tally, s)
  | .active (.lookingUp a entity none) queue tally =>
    let (reply, s) := remote.lookup s entity
    some (⟨.active (.lookingUp a entity (some reply)) queue tally, none⟩, s)
  | .active (.lookingUp a _ (some reply)) queue tally =>
    match reply.answer with
    | .breakdown => some (⟨.brokenDown tally, none⟩, s)
    | answer => some (settle a (Conflict.ofModification? a answer.time?) queue tally, s)
  | .active (.calling a conflicted call later none) queue tally =>
    let (reply, s) := remote.call s call
    some (⟨.active (.calling a conflicted call later (some reply)) queue tally, none⟩, s)
  | .active (.calling a conflicted _ later (some reply)) queue tally =>
    match reply.answer with
    | .breakdown => some (⟨.brokenDown tally, none⟩, s)
    | .error _ => some (fail a conflicted queue tally, s)
    | .value () => some (carryOut a conflicted later queue tally, s)
  | .waiting _ => none
  | .finished _ => none
  | .brokenDown _ => none

/-- A limit cuts off the answer that was asked for. -/
def expire? (limits : Limits) : Task → Option Stride
  | .active (.lookingUp a _ (some _)) queue tally =>
    if limits.lookup.isSome then some (settle a (Conflict.ofModification? a none) queue tally)
    else none
  | .active (.calling a conflicted _ _ (some _)) queue tally =>
    if limits.delivery.isSome then some (fail a conflicted queue tally) else none
  | _ => none

/-! ## How much there is left to do -/

/-- Steps for an action that has not been taken up: one to take it up, two for a look-up, and two
for each of at most two calls. -/
def actionWork : Nat := 7

/-- An upper bound of the steps left in a phase. -/
def phaseWork : Phase → Nat
  | .between => 0
  | .lookingUp _ _ none => 6
  | .lookingUp _ _ (some _) => 5
  | .calling _ _ _ later none => 2 + 2 * later.length
  | .calling _ _ _ later (some _) => 1 + 2 * later.length

/-- An upper bound of the steps left in a task. -/
def work : Task → Nat
  | .waiting queue => 2 + actionWork * queue.length
  | .active phase queue _ => 1 + phaseWork phase + actionWork * queue.length
  | .finished _ => 0
  | .brokenDown _ => 0

end Task
end Outbox
