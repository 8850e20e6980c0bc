import Outbox.Sync.Run

/-!
# What a move does

A task that has begun goes on in one of nine ways (`Task.Advances`) and gives up waiting in one of
two (`Task.Expires`). A move of a run starts a task that waits, or makes a step of a task and puts
the outcome in its place. What moves keep is proved by cases on these.

* `Task.Advances.of_advance?`, `Task.Expires.of_expire?`: a step is one of these ways.
* `Run.step?_start`, `Run.step?_advance`, `Run.step?_expire`: when a move is possible, and what it
  leads to.
* `Run.follow?` makes the moves of a schedule, and `Run.follow?_keeps` says that what every move
  keeps is kept.
-/

namespace Outbox

variable {σ : Type} {remote : Remote σ} {limits : Limits}

namespace Task

/-- The ways in which a task goes on. -/
inductive Advances (remote : Remote σ) : Task → σ → Stride → σ → Prop where
  | finish {tally : Report} {s : σ} :
      Advances remote (.active .between [] tally) s ⟨.finished tally, none⟩ s
  | takeUp {a : Action} {queue : List Action} {tally : Report} {s : σ} :
      Advances remote (.active .between (a :: queue) tally) s (takeUp a queue tally) s
  | look {a : Action} {entity : Entity} {queue : List Action} {tally : Report} {s : σ} :
      Advances remote (.active (.lookingUp a entity none) queue tally) s
        ⟨.active (.lookingUp a entity (some (remote.lookup s entity).1)) queue tally, none⟩
        (remote.lookup s entity).2
  | lookBroke {a : Action} {entity : Entity} {delay : Option Nat} {queue : List Action}
      {tally : Report} {s : σ} :
      Advances remote (.active (.lookingUp a entity (some ⟨.breakdown, delay⟩)) queue tally) s
        ⟨.brokenDown tally, none⟩ s
  | looked {a : Action} {entity : Entity} {answer : Answer (Option Timestamp)} {delay : Option Nat}
      {queue : List Action} {tally : Report} {s : σ} : answer ≠ .breakdown →
      Advances remote (.active (.lookingUp a entity (some ⟨answer, delay⟩)) queue tally) s
        (settle a (Conflict.ofModification? a answer.time?) queue tally) s
  | call {a : Action} {conflicted : Bool} {call : Call} {later : List Call} {queue : List Action}
      {tally : Report} {s : σ} :
      Advances remote (.active (.calling a conflicted call later none) queue tally) s
        ⟨.active (.calling a conflicted call later (some (remote.call s call).1)) queue tally, none⟩
        (remote.call s call).2
  | callBroke {a : Action} {conflicted : Bool} {call : Call} {later : List Call}
      {delay : Option Nat} {queue : List Action} {tally : Report} {s : σ} :
      Advances remote
        (.active (.calling a conflicted call later (some ⟨.breakdown, delay⟩)) queue tally) s
        ⟨.brokenDown tally, none⟩ s
  | refused {a : Action} {conflicted : Bool} {call : Call} {later : List Call} {e : RemoteFault}
      {delay : Option Nat} {queue : List Action} {tally : Report} {s : σ} :
      Advances remote
        (.active (.calling a conflicted call later (some ⟨.error e, delay⟩)) queue tally) s
        (fail a conflicted queue tally) s
  | accepted {a : Action} {conflicted : Bool} {call : Call} {later : List Call}
      {delay : Option Nat} {queue : List Action} {tally : Report} {s : σ} :
      Advances remote
        (.active (.calling a conflicted call later (some ⟨.value (), delay⟩)) queue tally) s
        (carryOut a conflicted later queue tally) s

theorem Advances.of_advance? {task : Task} {s s' : σ} {stride : Stride}
    (h : task.advance? remote s = some (stride, s')) : Advances remote task s stride s' := by
  unfold advance? at h
  split at h
  · cases h
    exact .finish
  · cases h
    exact .takeUp
  · cases h
    exact .look
  · rename_i a entity reply queue tally
    obtain ⟨answer, delay⟩ := reply
    cases answer with
    | breakdown =>
      cases h
      exact .lookBroke
    | value t =>
      cases h
      exact .looked nofun
    | error e =>
      cases h
      exact .looked nofun
  · cases h
    exact .call
  · rename_i a conflicted call later reply queue tally
    obtain ⟨answer, delay⟩ := reply
    cases answer with
    | breakdown =>
      cases h
      exact .callBroke
    | value u =>
      cases h
      exact .accepted
    | error e =>
      cases h
      exact .refused
  · cases h
  · cases h
  · cases h

/-- The ways in which a task gives up waiting for an answer. -/
inductive Expires (limits : Limits) : Task → Stride → Prop where
  | lookup {a : Action} {entity : Entity} {reply : Reply (Option Timestamp)} {queue : List Action}
      {tally : Report} : limits.lookup.isSome = true →
      Expires limits (.active (.lookingUp a entity (some reply)) queue tally)
        (settle a (Conflict.ofModification? a none) queue tally)
  | delivery {a : Action} {conflicted : Bool} {call : Call} {later : List Call}
      {reply : Reply Unit} {queue : List Action} {tally : Report} : limits.delivery.isSome = true →
      Expires limits (.active (.calling a conflicted call later (some reply)) queue tally)
        (fail a conflicted queue tally)

theorem Expires.of_expire? {task : Task} {stride : Stride}
    (h : task.expire? limits = some stride) : Expires limits task stride := by
  unfold expire? at h
  split at h
  · split at h
    · rename_i hlimit
      cases h
      exact .lookup hlimit
    · cases h
  · split at h
    · rename_i hlimit
      cases h
      exact .delivery hlimit
    · cases h
  · cases h

end Task

/-! ## Moves of a run -/

/-- An entry may be replaced by one that looks the same. -/
theorem map_set_of_eq {α β : Type} {f : α → β} {l : List α} {i : Nat} {a b : α}
    (ha : l[i]? = some a) (hb : f b = f a) : (l.set i b).map f = l.map f := by
  obtain ⟨hlt, rfl⟩ := List.getElem?_eq_some_iff.mp ha
  rw [List.map_set, hb, ← List.getElem_map f (h := by rwa [List.length_map])]
  exact List.set_getElem_self _

namespace Run

variable {r : Run} {shared : Shared σ} {i : Nat} {next : Run × Shared σ}

theorem step?_start :
    r.step? remote limits shared (.start i) = some next ↔
      ∃ queue, r.tasks[i]? = some (.waiting queue) ∧ r.hasPlace = true ∧
        next = ({ r with
          tasks := r.tasks.set i (.active .between queue .empty)
          places := r.places.map (· - 1) }, shared) := by
  simp only [step?]
  constructor
  · intro h
    split at h
    · rename_i queue htask
      split at h
      · rename_i hplace
        exact ⟨queue, htask, hplace, (Option.some.inj h).symm⟩
      · cases h
    · cases h
  · rintro ⟨queue, htask, hplace, rfl⟩
    simp only [htask, if_pos hplace]

theorem step?_advance :
    r.step? remote limits shared (.advance i) = some next ↔
      ∃ task stride s, r.tasks[i]? = some task ∧
        task.advance? remote shared.remote = some (stride, s) ∧
        next = r.put shared i stride s := by
  simp only [step?]
  constructor
  · intro h
    split at h
    · rename_i task htask
      obtain ⟨⟨stride, s⟩, hstep, rfl⟩ := Option.map_eq_some_iff.mp h
      exact ⟨task, stride, s, htask, hstep, rfl⟩
    · cases h
  · rintro ⟨task, stride, s, htask, hstep, rfl⟩
    simp only [htask, hstep, Option.map_some]

theorem step?_expire :
    r.step? remote limits shared (.expire i) = some next ↔
      ∃ task stride, r.tasks[i]? = some task ∧ task.expire? limits = some stride ∧
        next = r.put shared i stride shared.remote := by
  simp only [step?]
  constructor
  · intro h
    split at h
    · rename_i task htask
      obtain ⟨stride, hstep, rfl⟩ := Option.map_eq_some_iff.mp h
      exact ⟨task, stride, htask, hstep, rfl⟩
    · cases h
  · rintro ⟨task, stride, htask, hstep, rfl⟩
    simp only [htask, hstep, Option.map_some]

/-- A move is one within the batch. -/
theorem step?_batch {move : Move} (h : r.step? remote limits shared move = some next) :
    next.1.batch = r.batch := by
  cases move with
  | start i =>
    obtain ⟨queue, -, -, rfl⟩ := step?_start.mp h
    rfl
  | advance i =>
    obtain ⟨task, stride, s, -, -, rfl⟩ := step?_advance.mp h
    rfl
  | expire i =>
    obtain ⟨task, stride, -, -, rfl⟩ := step?_expire.mp h
    rfl

/-- Makes moves one after the other, if each is possible. -/
def follow? (remote : Remote σ) (limits : Limits) (moves : List Move) (s : Run × Shared σ) :
    Option (Run × Shared σ) :=
  moves.foldlM (fun s move => s.1.step? remote limits s.2 move) s

theorem follow?_cons {move : Move} {moves : List Move} {s s' : Run × Shared σ} :
    follow? remote limits (move :: moves) s = some s' ↔
      ∃ next, s.1.step? remote limits s.2 move = some next ∧
        follow? remote limits moves next = some s' := by
  unfold follow?
  rw [List.foldlM_cons]
  exact Option.bind_eq_some_iff

/-- A schedule goes on where another one ends. -/
theorem follow?_append {moves more : List Move} {s s' s'' : Run × Shared σ}
    (h : follow? remote limits moves s = some s')
    (hmore : follow? remote limits more s' = some s'') :
    follow? remote limits (moves ++ more) s = some s'' := by
  unfold follow? at *
  rw [List.foldlM_append, h]
  exact hmore

/-- What every move keeps, a schedule keeps. -/
theorem follow?_keeps {I : Run × Shared σ → Prop}
    (hstep : ∀ s move s', I s → s.1.step? remote limits s.2 move = some s' → I s')
    {moves : List Move} {s s' : Run × Shared σ} (h : follow? remote limits moves s = some s')
    (hs : I s) : I s' := by
  induction moves generalizing s with
  | nil =>
    cases h
    exact hs
  | cons move moves ih =>
    obtain ⟨next, hnext, hrest⟩ := follow?_cons.mp h
    exact ih hrest (hstep s move next hs hnext)

end Run
end Outbox
