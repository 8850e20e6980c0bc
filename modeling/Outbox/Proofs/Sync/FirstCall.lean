import Outbox.Proofs.Sync.Effects
import Outbox.Proofs.Sync.Prompt

/-!
# The first call of a schedule

A failure that is set for the next call does not show before a call is made: up to its first call a
sync takes the same steps as against the script without the failure (`Run.follow?_cleared`). The
first call meets the failure, whichever task makes it, and uses it up
(`ScriptedRemote.Logged.first_call`).

* `Run.answered`: the calls of a schedule with their answers.
* `Run.exists_first_call`: a schedule in which a call is made, up to the first one and from there
  on.
-/

namespace Outbox

/-! ## Calls and their answers -/

namespace Run

variable {σ : Type} {remote : Remote σ} {limits : Limits} {s s' : Run × Shared σ}

/-- The call that is made with a move, and its answer. -/
def answer? (remote : Remote σ) (s : Run × Shared σ) (move : Move) : Option (Call × Answer Unit) :=
  ((s.1.request? move).bind (·.2.call?)).map fun call =>
    (call, (remote.call s.2.remote call).1.answer)

/-- All calls that are made in the course of a schedule, as far as it can be followed, and their
answers. -/
def answered (remote : Remote σ) (limits : Limits) :
    List Move → Run × Shared σ → List (Call × Answer Unit)
  | [], _ => []
  | move :: moves, s =>
    match s.1.step? remote limits s.2 move with
    | some next => (answer? remote s move).toList ++ answered remote limits moves next
    | none => []

theorem answered_cons {move : Move} {next : Run × Shared σ}
    (h : s.1.step? remote limits s.2 move = some next) (moves : List Move) :
    answered remote limits (move :: moves) s =
      (answer? remote s move).toList ++ answered remote limits moves next := by
  rw [answered, h]

/-- The calls of a schedule are those of its history. -/
theorem map_fst_answered (moves : List Move) (s : Run × Shared σ) :
    (answered remote limits moves s).map Prod.fst =
      (history remote limits moves s).filterMap (·.2.call?) := by
  induction moves generalizing s with
  | nil => rfl
  | cons move moves ih =>
    rw [answered, history]
    cases s.1.step? remote limits s.2 move with
    | none => rfl
    | some next =>
      have hone : (answer? remote s move).toList.map Prod.fst =
          (s.1.request? move).toList.filterMap (·.2.call?) := by
        unfold answer?
        cases s.1.request? move with
        | none => rfl
        | some e => cases hcall : e.2.call? <;> simp [hcall]
      simp only [List.map_append, List.filterMap_append, hone, ih]

/-- Limits that cut nothing off have no part in what is answered. -/
theorem answered_limits (limits' : Limits) {moves : List Move} (h : NoneExpires moves)
    (s : Run × Shared σ) :
    answered remote limits moves s = answered remote limits' moves s := by
  induction moves generalizing s with
  | nil => rfl
  | cons move moves ih =>
    obtain ⟨hmove, hmoves⟩ := h.of_cons
    unfold answered
    rw [step?_limits limits' hmove]
    simp only [ih hmoves]

/-- A call is made by a task that has come to one. -/
theorem of_answer? {move : Move} {e : Call × Answer Unit} (h : answer? remote s move = some e) :
    ∃ i a conflicted later queue tally, move = .advance i ∧
      s.1.tasks[i]? = some (.active (.calling a conflicted e.1 later none) queue tally) ∧
      e.2 = (remote.call s.2.remote e.1).1.answer := by
  obtain ⟨call, hcall, rfl⟩ := Option.map_eq_some_iff.mp h
  obtain ⟨⟨i, request⟩, hrequest, hcall⟩ := Option.bind_eq_some_iff.mp hcall
  cases move with
  | start i => cases hrequest
  | expire i => cases hrequest
  | advance i =>
    obtain ⟨request, hasked, heq⟩ := Option.map_eq_some_iff.mp hrequest
    cases heq
    obtain ⟨task, htask, hasked⟩ := Option.bind_eq_some_iff.mp hasked
    unfold Task.request? at hasked
    split at hasked
    · cases hasked
      cases hcall
    · cases hasked
      cases hcall
      exact ⟨i, _, _, _, _, _, rfl, htask, rfl⟩
    · cases hasked

/-- **A schedule in which a call is made** goes up to the first one without a call, makes it, and
goes on from there. -/
theorem exists_first_call {moves : List Move} {first : Call × Answer Unit}
    {rest : List (Call × Answer Unit)} (h : follow? remote limits moves s = some s')
    (hfirst : answered remote limits moves s = first :: rest) :
    ∃ early move late mid next,
      follow? remote limits early s = some mid ∧ answered remote limits early s = [] ∧
      mid.1.step? remote limits mid.2 move = some next ∧ answer? remote mid move = some first ∧
      follow? remote limits late next = some s' ∧ answered remote limits late next = rest := by
  induction moves generalizing s with
  | nil => cases hfirst
  | cons move moves ih =>
    obtain ⟨next, hnext, hrest⟩ := follow?_cons.mp h
    rw [answered_cons hnext] at hfirst
    cases hanswer : answer? remote s move with
    | some e =>
      rw [hanswer] at hfirst
      cases hfirst
      exact ⟨[], move, moves, s, next, rfl, rfl, hnext, hanswer, hrest, rfl⟩
    | none =>
      rw [hanswer] at hfirst
      obtain ⟨early, move', late, mid, next', hearly, hnone, hlater⟩ := ih hrest hfirst
      refine ⟨move :: early, move', late, mid, next', follow?_cons.mpr ⟨next, hnext, hearly⟩, ?_,
        hlater⟩
      rw [answered_cons hnext, hanswer, hnone]
      rfl

end Run

/-! ## Up to the first call -/

namespace ScriptedRemote

variable {script s s' : ScriptedRemote}

/-- The script with nothing set for the next call. -/
def cleared (s : ScriptedRemote) : ScriptedRemote := { s with nextFailure := none }

theorem isPlain_cleared (h : script.breakdownTopics = []) : script.cleared.IsPlain := ⟨rfl, h⟩

theorem Logged.refl (script : ScriptedRemote) : script.Logged script := ⟨_, _, rfl⟩

theorem Logged.trans (h : script.Logged s) (h' : s.Logged s') : script.Logged s' := by
  obtain ⟨_, _, rfl⟩ := h
  obtain ⟨_, _, rfl⟩ := h'
  exact ⟨_, _, rfl⟩

theorem Logged.cleared (h : script.Logged s) : script.cleared.Logged s.cleared := by
  obtain ⟨_, _, rfl⟩ := h
  exact ⟨_, _, rfl⟩

/-- The first call gets the failure that was set, and uses it up. -/
theorem Logged.first_call (hs : script.Logged s) {reason : String}
    (hpending : script.nextFailure = some reason) (hcalm : script.breakdownTopics = [])
    (call : Call) :
    (remote.call s call).1 = ⟨.error (.unavailable reason), kept script.callDelay⟩ ∧
      script.cleared.Logged (remote.call s call).2 := by
  obtain ⟨calls, lookups, rfl⟩ := hs
  have hanswer : script.callAnswer call = .error (.unavailable reason) := by
    unfold callAnswer
    rw [breaksDown_eq_false hcalm, hpending]
    rfl
  refine ⟨?_, ⟨_, _, rfl⟩⟩
  rw [← hanswer]
  rfl

/-- No answer of the tables is a failure that is set. -/
theorem callAnswer_ne_unavailable (h : script.nextFailure = none) (call : Call) (reason : String) :
    script.callAnswer call ≠ .error (.unavailable reason) := by
  intro hanswer
  have hrefusal := refusal?_of_error h hanswer
  unfold refusal? refusal?.refusedTopic at hrefusal
  cases call <;> simp only at hrefusal <;> split at hrefusal <;> cases hrefusal

end ScriptedRemote

/-- What is shared, with nothing set for the next call. -/
def Shared.cleared (shared : Shared ScriptedRemote) : Shared ScriptedRemote :=
  { shared with remote := shared.remote.cleared }

/-- A step that makes no call sees nothing of a failure that is set. -/
theorem Task.advance?_cleared {task : Task} {s s' : ScriptedRemote} {stride : Stride}
    (hcall : task.request?.bind Request.call? = none)
    (h : task.advance? ScriptedRemote.remote s = some (stride, s')) :
    task.advance? ScriptedRemote.remote s.cleared = some (stride, s'.cleared) ∧ s.Logged s' := by
  cases Advances.of_advance? h with
  | finish => exact ⟨rfl, .refl s⟩
  | takeUp => exact ⟨rfl, .refl s⟩
  | look => exact ⟨rfl, _, _, rfl⟩
  | lookBroke => exact ⟨rfl, .refl s⟩
  | @looked _ _ answer _ _ _ _ hanswer =>
    refine ⟨?_, .refl s⟩
    cases answer with
    | breakdown => exact absurd rfl hanswer
    | value t => rfl
    | error e => rfl
  | call => cases hcall
  | callBroke => exact ⟨rfl, .refl s⟩
  | refused => exact ⟨rfl, .refl s⟩
  | accepted => exact ⟨rfl, .refl s⟩

namespace Run

variable {limits : Limits} {s s' : Run × Shared ScriptedRemote}

theorem step?_cleared {move : Move} (hcall : answer? ScriptedRemote.remote s move = none)
    (h : s.1.step? ScriptedRemote.remote limits s.2 move = some s') :
    s.1.step? ScriptedRemote.remote limits s.2.cleared move = some (s'.1, s'.2.cleared) ∧
      s.2.remote.Logged s'.2.remote := by
  cases move with
  | start i =>
    obtain ⟨queue, htask, hplace, rfl⟩ := step?_start.mp h
    exact ⟨step?_start.mpr ⟨queue, htask, hplace, rfl⟩, .refl _⟩
  | expire i =>
    obtain ⟨task, stride, htask, hstep, rfl⟩ := step?_expire.mp h
    exact ⟨step?_expire.mpr ⟨task, stride, htask, hstep, rfl⟩, .refl _⟩
  | advance i =>
    obtain ⟨task, stride, remote, htask, hstep, rfl⟩ := step?_advance.mp h
    have hnone : task.request?.bind Request.call? = none := by
      unfold answer? at hcall
      simp only [request?, htask, Option.bind_some] at hcall
      cases hrequest : task.request? with
      | none => rfl
      | some request =>
        rw [hrequest] at hcall
        exact Option.map_eq_none_iff.mp hcall
    obtain ⟨hstep', hlogged⟩ := Task.advance?_cleared hnone hstep
    exact ⟨step?_advance.mpr ⟨task, stride, remote.cleared, htask, hstep', rfl⟩, hlogged⟩

/-- **Up to the first call a sync sees nothing of a failure that is set.** -/
theorem follow?_cleared {moves : List Move}
    (h : follow? ScriptedRemote.remote limits moves s = some s')
    (hnone : answered ScriptedRemote.remote limits moves s = []) :
    follow? ScriptedRemote.remote limits moves (s.1, s.2.cleared) = some (s'.1, s'.2.cleared) ∧
      s.2.remote.Logged s'.2.remote := by
  induction moves generalizing s with
  | nil =>
    cases h
    exact ⟨rfl, .refl _⟩
  | cons move moves ih =>
    obtain ⟨next, hnext, hrest⟩ := follow?_cons.mp h
    rw [answered_cons hnext, List.append_eq_nil_iff, Option.toList_eq_nil_iff] at hnone
    obtain ⟨hstep, hlogged⟩ := step?_cleared hnone.1 hnext
    obtain ⟨hfollow, hlogged'⟩ := ih hrest hnone.2
    exact ⟨follow?_cons.mpr ⟨_, hstep, hfollow⟩, hlogged.trans hlogged'⟩

/-- **Where nothing is set, every call is answered from the tables**, and nothing will be set. -/
theorem answered_of_follow? {script : ScriptedRemote} (hplain : script.nextFailure = none)
    (hs : script.Logged s.2.remote) (hdelivery : limits.delivery = none)
    (hlookup : limits.lookup = none) {moves : List Move}
    (h : follow? ScriptedRemote.remote limits moves s = some s') :
    script.Logged s'.2.remote ∧
      ∀ e ∈ answered ScriptedRemote.remote limits moves s, e.2 = script.callAnswer e.1 := by
  induction moves generalizing s with
  | nil =>
    cases h
    exact ⟨hs, fun e he => absurd he List.not_mem_nil⟩
  | cons move moves ih =>
    obtain ⟨next, hnext, hrest⟩ := follow?_cons.mp h
    have hlogged := (walks_of_step? hplain hs hdelivery hlookup hnext).1
    obtain ⟨hlogged', hlater⟩ := ih hlogged hrest
    refine ⟨hlogged', fun e he => ?_⟩
    rw [answered_cons hnext] at he
    rcases List.mem_append.mp he with he | he
    · obtain ⟨i, a, conflicted, later, queue, tally, -, -, hanswer⟩ :=
        of_answer? (Option.mem_toList.mp he)
      rw [hanswer]
      exact ((ScriptedRemote.obeys hplain limits hdelivery hlookup).call _ e.1 hs).2
    · exact hlater e he

end Run
end Outbox
