import Outbox.Proofs.Sync.Finding
import Outbox.Proofs.Sync.Step

/-!
# What a task has on record

`Task.Records w whole found task` says where a task with the queue `whole` stands: it has made the
findings `found` about a first part of its queue, all of them explained by the answers `w`, its
tally is their report, and the action that it is at has come as far as the answers allow. A task
that broke down did so at an answer that makes the caller break down, and its tally is the report
of its findings and the conflict, if any, of the action that it was at.

`Remote.Obeys` says that a remote system gives no other answers than `w`, and that a limit which is
set counts as one more answer, a timeout.

* `Task.Records.advance`, `Task.Records.expire`: a step of a task keeps its record, and adds the
  finding that the step reports to be done.
* `Task.Records.of_isEnded`: a task that has finished has findings about its whole queue.
-/

namespace Outbox

variable {w : Answers} {whole queue : List Action} {found : List Finding} {a : Action}

/-! ## Records -/

/-- The queue of a task is split into the actions of its findings and the rest. -/
structure Position (w : Answers) (whole : List Action) (found : List Finding)
    (rest : List Action) : Prop where
  explained : ∀ f ∈ found, w.Explains f
  split : whole = found.map (·.action) ++ rest

/-- An action is being carried out: the calls `made` were accepted and `later` are to come. -/
structure Underway (w : Answers) (a : Action) (conflict : Option Conflict)
    (made later : List Call) : Prop where
  finds : w.Finds a conflict
  prevails : Prevails conflict
  operation : ∃ op, Operation.ofAction a = .ok op ∧ op.calls = made ++ later
  accepted : ∀ call ∈ made, w.call call (.value ())

/-- An answer that an action may get makes the caller break down. -/
inductive Answers.BreaksDown (w : Answers) (a : Action) : Prop where
  | lookup {entity : Entity} :
      a.lookupTarget? = some entity → w.lookup entity .breakdown → BreaksDown w a
  | call {conflict : Option Conflict} {made later : List Call} {call : Call} :
      Underway w a conflict made (call :: later) → w.call call .breakdown → BreaksDown w a

/-- What a task with the queue `whole` has on record. -/
inductive Task.Records (w : Answers) (whole : List Action) : List Finding → Task → Prop where
  | waiting : Records w whole [] (.waiting whole)
  | between {found : List Finding} {queue : List Action} :
      Position w whole found queue →
      Records w whole found (.active .between queue (.ofFindings found))
  | lookingUp {found : List Finding} {queue : List Action} {a : Action} {entity : Entity}
      {reply : Option (Reply (Option Timestamp))} :
      Position w whole found (a :: queue) → a.lookupTarget? = some entity →
      (∀ r ∈ reply, w.lookup entity r.answer) →
      Records w whole found
        (.active (.lookingUp a entity reply) queue ((Report.ofFindings found).begun none))
  | calling {found : List Finding} {queue : List Action} {a : Action} {conflict : Option Conflict}
      {made later : List Call} {call : Call} {reply : Option (Reply Unit)} :
      Position w whole found (a :: queue) → Underway w a conflict made (call :: later) →
      (∀ r ∈ reply, w.call call r.answer) →
      Records w whole found
        (.active (.calling a conflict.isSome call later reply) queue
          ((Report.ofFindings found).begun conflict))
  | finished {found : List Finding} :
      Position w whole found [] → Records w whole found (.finished (.ofFindings found))
  | brokenDown {found : List Finding} {queue : List Action} {a : Action}
      {conflict : Option Conflict} :
      Position w whole found (a :: queue) → w.BreaksDown a → Prevails conflict →
      Records w whole found (.brokenDown ((Report.ofFindings found).begun conflict))

/-- A step keeps the record of a task, and adds the finding that it reports to be done. -/
def Stride.Records (w : Answers) (whole : List Action) (found : List Finding) (stride : Stride) :
    Prop :=
  ∃ new : Option Finding, stride.task.Records w whole (found ++ new.toList) ∧
    stride.done = new.map Finding.outcome

/-- A remote system in a state of `good` gives the expected answers and stays in such a state; a
limit that is set counts as a timeout. -/
structure Remote.Obeys {σ : Type} (remote : Remote σ) (limits : Limits) (good : σ → Prop)
    (w : Answers) : Prop where
  lookup : ∀ s entity, good s →
    good (remote.lookup s entity).2 ∧ w.lookup entity (remote.lookup s entity).1.answer
  call : ∀ s call, good s →
    good (remote.call s call).2 ∧ w.call call (remote.call s call).1.answer
  lookupLimit : limits.lookup.isSome → ∀ entity, w.lookup entity (.error .timeout)
  deliveryLimit : limits.delivery.isSome → ∀ call, w.call call (.error .timeout)

/-! ## What a step adds -/

/-- A step that is not done with an action keeps the findings. -/
theorem Task.Records.stride {task : Task} (h : task.Records w whole found) :
    (⟨task, none⟩ : Stride).Records w whole found := by
  refine ⟨none, ?_, rfl⟩
  rw [Option.toList_none, List.append_nil]
  exact h

/-- A step that is done with an action adds its finding. -/
theorem Position.close (h : Position w whole found (a :: queue)) {conflict : Option Conflict}
    {fate : Fate} (hf : w.Explains ⟨a, conflict, fate⟩) :
    Position w whole (found ++ [⟨a, conflict, fate⟩]) queue where
  explained f hmem := by
    rcases List.mem_append.mp hmem with hmem | hmem
    · exact h.explained f hmem
    · rw [List.mem_singleton.mp hmem]
      exact hf
  split := by
    rw [h.split, List.map_append, List.append_assoc]
    rfl

theorem Position.closed (h : Position w whole found (a :: queue)) {conflict : Option Conflict}
    {fate : Fate} (hf : w.Explains ⟨a, conflict, fate⟩) {tally : Report}
    (ht : tally = .ofFindings (found ++ [⟨a, conflict, fate⟩])) :
    (Task.close queue tally fate conflict.isSome).Records w whole found := by
  subst ht
  exact ⟨some ⟨a, conflict, fate⟩, .between (h.close hf), rfl⟩

theorem Position.failed (h : Position w whole found (a :: queue)) {conflict : Option Conflict}
    (hf : w.Explains ⟨a, conflict, .failed⟩) :
    (Task.fail a conflict.isSome queue ((Report.ofFindings found).begun conflict)).Records
      w whole found :=
  h.closed hf (Report.ofFindings_failed found a conflict).symm

/-- The calls that are left are made, or the action is carried out. -/
theorem Position.carriedOn (h : Position w whole found (a :: queue)) {conflict : Option Conflict}
    {made later : List Call} (hu : Underway w a conflict made later) :
    (Task.carryOut a conflict.isSome later queue
      ((Report.ofFindings found).begun conflict)).Records w whole found := by
  cases later with
  | nil =>
    obtain ⟨op, hop, hcalls⟩ := hu.operation
    rw [List.append_nil] at hcalls
    have hends : w.Ends a conflict .synced :=
      .carriedOut hu.prevails hop fun call hc => hu.accepted call (hcalls ▸ hc)
    exact h.closed ⟨hu.finds, hends⟩ (Report.ofFindings_synced found a conflict).symm
  | cons call later =>
    refine (Task.Records.calling h hu fun r hr => ?_).stride
    exact absurd hr (Option.not_mem_none r)

theorem Position.attempted (h : Position w whole found (a :: queue)) {conflict : Option Conflict}
    (hfinds : w.Finds a conflict) (hprev : Prevails conflict) :
    (Task.attempt a conflict.isSome queue ((Report.ofFindings found).begun conflict)).Records
      w whole found := by
  unfold Task.attempt
  cases hop : Operation.ofAction a with
  | error e => exact h.failed ⟨hfinds, .unfit hprev hop⟩
  | ok op =>
    have hu : Underway w a conflict [] op.calls :=
      ⟨hfinds, hprev, ⟨op, hop, rfl⟩, fun call hc => absurd hc List.not_mem_nil⟩
    exact h.carriedOn hu

theorem Position.settled (h : Position w whole found (a :: queue)) {conflict : Option Conflict}
    (hfinds : w.Finds a (conflict.map Conflict.settle)) :
    (Task.settle a conflict queue ((Report.ofFindings found).begun none)).Records
      w whole found := by
  cases conflict with
  | none => exact h.attempted hfinds fun c hc => absurd hc (Option.not_mem_none c)
  | some c =>
    unfold Task.settle
    simp only
    rw [Report.begun_some]
    split
    · rename_i hprev
      refine h.attempted hfinds fun c' hc' => ?_
      rw [← Option.mem_some.mp hc']
      exact hprev
    · rename_i hprev
      exact h.closed ⟨hfinds, .lost (Bool.not_eq_true _ ▸ hprev)⟩
        (Report.ofFindings_lost found a (some c.settle)).symm

theorem Position.takenUp (h : Position w whole found (a :: queue)) :
    (Task.takeUp a queue (.ofFindings found)).Records w whole found := by
  unfold Task.takeUp
  simp only
  rw [← Report.begun_none]
  cases htarget : a.lookupTarget? with
  | none =>
    have hfinds : w.Finds a ((none : Option Conflict).map Conflict.settle) := .unasked htarget
    exact h.settled hfinds
  | some entity =>
    refine (Task.Records.lookingUp h htarget fun r hr => ?_).stride
    exact absurd hr (Option.not_mem_none r)

theorem Position.start (w : Answers) (whole : List Action) : Position w whole [] whole :=
  ⟨fun _ hf => absurd hf List.not_mem_nil, rfl⟩

/-- A task that begins has no findings yet. -/
theorem Task.Records.begun (h : Task.Records w whole found (.waiting queue)) :
    (⟨.active .between queue .empty, none⟩ : Stride).Records w whole found := by
  cases h with
  | waiting => exact (Task.Records.between (.start w whole)).stride

/-- A task has findings about a first part of its queue. -/
theorem Task.Records.exists_position {task : Task} (h : task.Records w whole found) :
    ∃ rest, Position w whole found rest := by
  cases h with
  | waiting => exact ⟨_, .start w whole⟩
  | between h => exact ⟨_, h⟩
  | lookingUp h _ _ => exact ⟨_, h⟩
  | calling h _ _ => exact ⟨_, h⟩
  | finished h => exact ⟨_, h⟩
  | brokenDown h _ _ => exact ⟨_, h⟩

/-- A task that has finished has findings about its whole queue, and they make up its tally. -/
theorem Task.Records.of_isEnded {task : Task} (h : task.Records w whole found)
    (hended : task.isEnded = true) (hwhole : ∀ tally, task ≠ .brokenDown tally) :
    Position w whole found [] ∧ task.contribution = .ofFindings found := by
  cases h with
  | finished h => exact ⟨h, rfl⟩
  | brokenDown _ _ _ => exact absurd rfl (hwhole _)
  | waiting => cases hended
  | between _ => cases hended
  | lookingUp _ _ _ => cases hended
  | calling _ _ _ => cases hended

/-! ## Steps -/

/-- An accepted call joins those that were made. -/
theorem Underway.accept {conflict : Option Conflict} {made later : List Call} {call : Call}
    (hu : Underway w a conflict made (call :: later)) (hc : w.call call (.value ())) :
    Underway w a conflict (made ++ [call]) later where
  finds := hu.finds
  prevails := hu.prevails
  operation := by
    obtain ⟨op, hop, hcalls⟩ := hu.operation
    exact ⟨op, hop, by rw [hcalls, List.append_assoc, List.singleton_append]⟩
  accepted c hmem := by
    rcases List.mem_append.mp hmem with hmem | hmem
    · exact hu.accepted c hmem
    · rw [List.mem_singleton.mp hmem]
      exact hc

/-- A refused call fails the action. -/
theorem Underway.refuse {conflict : Option Conflict} {made later : List Call} {call : Call}
    {e : RemoteFault} (hu : Underway w a conflict made (call :: later))
    (hc : w.call call (.error e)) : w.Explains ⟨a, conflict, .failed⟩ := by
  obtain ⟨op, hop, hcalls⟩ := hu.operation
  have hmem : call ∈ op.calls := by
    rw [hcalls]
    exact List.mem_append_right made List.mem_cons_self
  exact ⟨hu.finds, .refused hu.prevails hop hmem hc⟩

section Step

variable {σ : Type} {remote : Remote σ} {limits : Limits} {good : σ → Prop}

/-- **A step keeps the record of a task**, and leaves the remote system in a good state. -/
theorem Task.Records.advance (hw : remote.Obeys limits good w) {task : Task}
    (h : task.Records w whole found) {s s' : σ} (hs : good s) {stride : Stride}
    (hstep : task.Advances remote s stride s') : stride.Records w whole found ∧ good s' := by
  cases hstep with
  | finish =>
    cases h with
    | between h => exact ⟨(Task.Records.finished h).stride, hs⟩
  | takeUp =>
    cases h with
    | between h => exact ⟨h.takenUp, hs⟩
  | @look _ entity =>
    cases h with
    | lookingUp h htarget _ =>
      have hanswer := hw.lookup s entity hs
      refine ⟨(Task.Records.lookingUp h htarget fun r hr => ?_).stride, hanswer.1⟩
      rw [← Option.mem_some.mp hr]
      exact hanswer.2
  | lookBroke =>
    cases h with
    | lookingUp h htarget hreply =>
      have hbreaks : w.BreaksDown _ := .lookup htarget (hreply _ rfl)
      have hprev : Prevails none := fun c hc => absurd hc (Option.not_mem_none c)
      exact ⟨(Task.Records.brokenDown h hbreaks hprev).stride, hs⟩
  | looked hb =>
    cases h with
    | lookingUp h htarget hreply => exact ⟨h.settled (.asked htarget (hreply _ rfl) hb), hs⟩
  | @call _ _ call =>
    cases h with
    | calling h hu _ =>
      have hanswer := hw.call s call hs
      refine ⟨(Task.Records.calling h hu fun r hr => ?_).stride, hanswer.1⟩
      rw [← Option.mem_some.mp hr]
      exact hanswer.2
  | callBroke =>
    cases h with
    | calling h hu hreply =>
      have hbreaks : w.BreaksDown _ := .call hu (hreply _ rfl)
      exact ⟨(Task.Records.brokenDown h hbreaks hu.prevails).stride, hs⟩
  | refused =>
    cases h with
    | calling h hu hreply => exact ⟨h.failed (hu.refuse (hreply _ rfl)), hs⟩
  | accepted =>
    cases h with
    | calling h hu hreply => exact ⟨h.carriedOn (hu.accept (hreply _ rfl)), hs⟩

/-- A limit that cuts off an answer keeps the record of a task. -/
theorem Task.Records.expire (hw : remote.Obeys limits good w) {task : Task}
    (h : task.Records w whole found) {stride : Stride} (hstep : task.Expires limits stride) :
    stride.Records w whole found := by
  cases hstep with
  | @lookup a entity _ _ _ hlimit =>
    cases h with
    | lookingUp h htarget _ =>
      exact h.settled (.asked htarget (hw.lookupLimit hlimit entity) nofun)
  | @delivery a _ call _ _ _ _ hlimit =>
    cases h with
    | calling h hu _ => exact h.failed (hu.refuse (hw.deliveryLimit hlimit call))

end Step

end Outbox
