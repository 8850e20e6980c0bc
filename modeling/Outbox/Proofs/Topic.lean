import Outbox.Topic
import Mathlib.Data.List.Perm.Basic

/-!
# Splitting a queue by topic loses nothing

`queued` puts the queues of all topics one after the other. `ofActions` only moves actions within a
batch: `linedUp_perm` says that the lined-up queues are the batch in another order, with every
action as often as before. The queue of a topic has all actions of this topic (`eq_ofTopic`), and
the others have no part in it (`filter_ofActions`).
-/

namespace Outbox.TopicQueue

/-- The actions of all queues, one queue after the other. -/
def queued (queues : List TopicQueue) : List Action := queues.flatMap (·.actions)

theorem queued_cons (q : TopicQueue) (queues : List TopicQueue) :
    queued (q :: queues) = q.actions ++ queued queues := rfl

theorem queued_add (topic : String) (a : Action) (queues : List TopicQueue) :
    (queued (add topic a queues)).Perm (queued queues ++ [a]) := by
  induction queues with
  | nil => exact List.Perm.refl _
  | cons q queues ih =>
    unfold add
    split
    · -- The action goes behind its own topic, so it passes the queues of the later ones.
      rw [queued_cons, queued_cons, List.append_assoc, List.append_assoc]
      exact List.Perm.append_left q.actions List.perm_append_comm
    · rw [queued_cons, queued_cons, List.append_assoc]
      exact List.Perm.append_left q.actions ih

theorem queued_foldl_add (fallback : String) (actions : List Action) (queues : List TopicQueue) :
    (queued (actions.foldl (fun queues a => add (a.topicOr fallback) a queues) queues)).Perm
      (queued queues ++ actions) := by
  induction actions generalizing queues with
  | nil => rw [List.foldl_nil, List.append_nil]
  | cons a actions ih =>
    rw [List.foldl_cons]
    refine (ih _).trans ?_
    rw [List.append_cons]
    exact (queued_add _ a queues).append_right actions

/-- A batch lined up by topic. -/
def linedUp (fallback : String) (actions : List Action) : List Action :=
  queued (ofActions fallback actions)

/-- **The queues of the topics hold the batch**, each action as often as it was submitted. -/
theorem linedUp_perm (fallback : String) (actions : List Action) :
    (linedUp fallback actions).Perm actions :=
  queued_foldl_add fallback actions []

theorem queued_map_actions (queues : List TopicQueue) :
    (queues.map (·.actions)).flatten = queued queues := (List.flatMap_def).symm

/-- A queue has the actions of its own topic. -/
def Sorted (fallback : String) (queues : List TopicQueue) : Prop :=
  ∀ q ∈ queues, ∀ a ∈ q.actions, a.topicOr fallback = q.topic

theorem Sorted.add {fallback : String} {queues : List TopicQueue} (h : Sorted fallback queues)
    (a : Action) : Sorted fallback (add (a.topicOr fallback) a queues) := by
  induction queues with
  | nil =>
    intro q hq b hb
    rw [List.mem_singleton.mp hq] at hb ⊢
    rw [List.mem_singleton.mp hb]
  | cons q queues ih =>
    obtain ⟨hq, hqueues⟩ := List.forall_mem_cons.mp h
    unfold TopicQueue.add
    split
    · rename_i htopic
      refine List.forall_mem_cons.mpr ⟨fun b hb => ?_, hqueues⟩
      rcases List.mem_append.mp hb with hb | hb
      · exact hq b hb
      · rw [List.mem_singleton.mp hb, htopic]
    · exact List.forall_mem_cons.mpr ⟨hq, ih hqueues⟩

/-- **Every queue has the actions of its own topic only.** -/
theorem sorted_ofActions (fallback : String) (actions : List Action) :
    Sorted fallback (ofActions fallback actions) := by
  unfold ofActions
  exact List.foldlRecOn actions _ (fun q hq => absurd hq List.not_mem_nil) fun _ h a _ => h.add a

/-! ## Batches without some topics -/

section Filter

variable {fallback topic : String} {queues : List TopicQueue} {q : TopicQueue} (p : String → Bool)

theorem add_cons_of_eq (a : Action) (h : q.topic = topic) :
    add topic a (q :: queues) = { q with actions := q.actions ++ [a] } :: queues := if_pos h

theorem add_cons_of_ne (a : Action) (h : q.topic ≠ topic) :
    add topic a (q :: queues) = q :: add topic a queues := if_neg h

/-- An action matters to the queues of some topics if its own is one of them. -/
theorem filter_add (a : Action) :
    (add topic a queues).filter (fun q => p q.topic) =
      if p topic then add topic a (queues.filter fun q => p q.topic)
      else queues.filter fun q => p q.topic := by
  induction queues with
  | nil =>
    by_cases hp : p topic = true
    · simp [TopicQueue.add, hp]
    · simp [TopicQueue.add, hp]
  | cons q queues ih =>
    by_cases htopic : q.topic = topic
    · rw [add_cons_of_eq a htopic]
      by_cases hp : p topic = true
      · simp [htopic, hp, add_cons_of_eq a htopic]
      · simp [htopic, hp]
    · rw [add_cons_of_ne a htopic]
      by_cases hq : p q.topic = true
      · simp only [List.filter_cons, hq, if_true, ih]
        split
        · rw [add_cons_of_ne a htopic]
        · rfl
      · simp only [List.filter_cons, hq, ih]
        rfl

/-- **Topics are split without regard to each other**: some queues of a batch are the queues of
their actions. -/
theorem filter_ofActions (fallback : String) (actions : List Action) :
    (ofActions fallback actions).filter (fun q => p q.topic) =
      ofActions fallback (actions.filter fun a => p (a.topicOr fallback)) := by
  have hfold : ∀ queues : List TopicQueue,
      (actions.foldl (fun queues a => add (a.topicOr fallback) a queues) queues).filter
          (fun q => p q.topic) =
        (actions.filter fun a => p (a.topicOr fallback)).foldl
          (fun queues a => add (a.topicOr fallback) a queues)
          (queues.filter fun q => p q.topic) := by
    induction actions with
    | nil => exact fun queues => rfl
    | cons a actions ih =>
      intro queues
      rw [List.foldl_cons, ih, filter_add]
      by_cases hp : p (a.topicOr fallback) = true
      · simp only [List.filter_cons, hp, if_true, List.foldl_cons]
      · simp only [List.filter_cons, hp, if_false, Bool.false_eq_true]
  exact hfold []

/-- Actions of one topic go behind each other. -/
theorem foldl_add_of_forall {actions : List Action} (h : ∀ a ∈ actions, a.topicOr fallback = topic)
    (before : List Action) :
    actions.foldl (fun queues a => add (a.topicOr fallback) a queues) [⟨topic, before⟩] =
      [⟨topic, before ++ actions⟩] := by
  induction actions generalizing before with
  | nil =>
    rw [List.append_nil]
    rfl
  | cons a actions ih =>
    obtain ⟨ha, hactions⟩ := List.forall_mem_cons.mp h
    have hadd : add topic a [⟨topic, before⟩] = [⟨topic, before ++ [a]⟩] := add_cons_of_eq a rfl
    rw [List.foldl_cons, ha, hadd, ih hactions, List.append_assoc]
    rfl

/-- Actions of one topic make up one queue. -/
theorem ofActions_of_forall {actions : List Action} (h : ∀ a ∈ actions, a.topicOr fallback = topic)
    (hne : actions ≠ []) : ofActions fallback actions = [⟨topic, actions⟩] := by
  cases actions with
  | nil => exact absurd rfl hne
  | cons a actions =>
    obtain ⟨ha, hactions⟩ := List.forall_mem_cons.mp h
    unfold ofActions
    rw [List.foldl_cons, ha]
    exact foldl_add_of_forall hactions [a]

/-- The actions of one topic in a batch. -/
def ofTopic (fallback : String) (actions : List Action) (topic : String) : TopicQueue :=
  ⟨topic, actions.filter (·.topicOr fallback = topic)⟩

/-- **A queue has all actions of its topic**, in the order of the batch. -/
theorem eq_ofTopic {actions : List Action} (h : q ∈ ofActions fallback actions) :
    q = ofTopic fallback actions q.topic := by
  have hq := List.mem_filter (p := fun r : TopicQueue => decide (r.topic = q.topic)) |>.mpr
    ⟨h, decide_eq_true rfl⟩
  rw [filter_ofActions (fun t => decide (t = q.topic))] at hq
  by_cases hnone : actions.filter (·.topicOr fallback = q.topic) = []
  · rw [hnone] at hq
    cases hq
  · rw [ofActions_of_forall (fun a ha => by simpa using (List.mem_filter.mp ha).2) hnone] at hq
    exact List.mem_singleton.mp hq

end Filter

end Outbox.TopicQueue
