import Mathlib.Data.List.Nodup
import Outbox.Proofs.Topic

/-!
# The queues of a batch, one for each topic

A batch is split into one queue for each topic that occurs in it. The topics stand in the order in
which they first occur, and each queue has all actions of its topic in the order of the batch
(`TopicQueue.stable_partition`). So nothing is lost or doubled, and splitting the lined-up queues
once more gives the same queues.

* `TopicQueue.topics_ofActions`: the topics, by induction on the batch, generalised over the queues
  that are there already.
* `TopicQueue.ofActions_eq`: the queues are found from their topics alone.
* `TopicQueue.ofActions_queued`: queues of different topics that are lined up are split into
  themselves.
-/

namespace Outbox

/-- An action has its own topic, if it has one and this is not empty, or the fallback. -/
theorem Action.topicOr_eq (fallback : String) (a : Action) :
    a.topicOr fallback =
      match a.payload.topicId with
      | some topic => if topic = "" then fallback else topic
      | none => fallback := by
  unfold topicOr topic? nonEmpty?
  cases a.payload.topicId with
  | none => rfl
  | some topic =>
    by_cases htopic : topic = "" <;> simp [Option.filter, htopic]

namespace TopicQueue

variable {fallback topic : String} {queues : List TopicQueue} {actions : List Action}

/-! ## Topics -/

theorem topics_add (topic : String) (a : Action) (queues : List TopicQueue) :
    (add topic a queues).map (·.topic) =
      if topic ∈ queues.map (·.topic) then queues.map (·.topic)
      else queues.map (·.topic) ++ [topic] := by
  induction queues with
  | nil => rfl
  | cons q queues ih =>
    by_cases htopic : q.topic = topic
    · rw [add_cons_of_eq a htopic, List.map_cons, List.map_cons, htopic, if_pos List.mem_cons_self]
    · rw [add_cons_of_ne a htopic, List.map_cons, List.map_cons, ih]
      by_cases hmem : topic ∈ queues.map (·.topic)
      · rw [if_pos hmem, if_pos (List.mem_cons_of_mem _ hmem)]
      · rw [if_neg hmem, if_neg (List.not_mem_cons_of_ne_of_not_mem (Ne.symm htopic) hmem),
          List.cons_append]

theorem topics_foldl_add (fallback : String) (actions : List Action) (queues : List TopicQueue) :
    (actions.foldl (fun queues a => add (a.topicOr fallback) a queues) queues).map (·.topic) =
      queues.map (·.topic) ++
        ((actions.map (·.topicOr fallback)).filter (· ∉ queues.map (·.topic))).eraseDups := by
  induction actions generalizing queues with
  | nil => exact (List.append_nil _).symm
  | cons a actions ih =>
    rw [List.foldl_cons, ih, topics_add, List.map_cons]
    by_cases hmem : a.topicOr fallback ∈ queues.map (·.topic)
    · rw [if_pos hmem, List.filter_cons_of_neg (by simpa using hmem)]
    · rw [if_neg hmem, List.filter_cons_of_pos (by simpa using hmem), List.eraseDups_cons,
        List.filter_filter, List.append_assoc, List.singleton_append]
      -- The topic is in its place now, so it is passed over like the others.
      have hlater : ∀ t, decide (t ∉ queues.map (·.topic) ++ [a.topicOr fallback]) =
          ((!t == a.topicOr fallback) && decide (t ∉ queues.map (·.topic))) := by
        intro t
        by_cases heq : t = a.topicOr fallback <;> simp [heq]
      simp only [hlater]

/-- **The topics stand in the order in which they first occur.** -/
theorem topics_ofActions (fallback : String) (actions : List Action) :
    (ofActions fallback actions).map (·.topic) =
      (actions.map (·.topicOr fallback)).eraseDups := by
  have htopics := topics_foldl_add fallback actions []
  simpa [ofActions] using htopics

/-- No two queues have one topic. -/
def Distinct (queues : List TopicQueue) : Prop := (queues.map (·.topic)).Nodup

theorem Distinct.add (h : Distinct queues) (topic : String) (a : Action) :
    Distinct (add topic a queues) := by
  unfold Distinct
  rw [topics_add]
  split
  · exact h
  · rename_i hfresh
    rw [← List.concat_eq_append]
    exact List.Nodup.concat hfresh h

/-- **No topic has two queues.** -/
theorem distinct_ofActions (fallback : String) (actions : List Action) :
    Distinct (ofActions fallback actions) := by
  unfold ofActions
  exact List.foldlRecOn actions _ List.nodup_nil fun _ h a _ => h.add _ a

/-! ## Queues -/

/-- **The queues are the actions of each topic**, in the order of the batch. -/
theorem ofActions_eq (fallback : String) (actions : List Action) :
    ofActions fallback actions =
      (actions.map (·.topicOr fallback)).eraseDups.map (ofTopic fallback actions) := by
  rw [← topics_ofActions, List.map_map]
  exact (List.map_id' _).symm.trans (List.map_congr_left fun q hq => eq_ofTopic hq)

/-- There is no queue without actions. -/
theorem actions_ne_nil {q : TopicQueue} (h : q ∈ ofActions fallback actions) : q.actions ≠ [] := by
  rw [ofActions_eq] at h
  obtain ⟨topic, htopic, rfl⟩ := List.mem_map.mp h
  obtain ⟨a, ha, rfl⟩ := List.mem_map.mp (List.mem_eraseDups.mp htopic)
  exact List.ne_nil_of_mem (List.mem_filter.mpr ⟨ha, decide_eq_true rfl⟩)

/-! ## Splitting once more -/

/-- An action goes past the queues of other topics. -/
theorem add_append {before : List TopicQueue} (a : Action)
    (h : topic ∉ before.map (·.topic)) (queues : List TopicQueue) :
    add topic a (before ++ queues) = before ++ add topic a queues := by
  induction before with
  | nil => rfl
  | cons q before ih =>
    obtain ⟨hq, hbefore⟩ := List.ne_and_not_mem_of_not_mem_cons h
    rw [List.cons_append, add_cons_of_ne a (Ne.symm hq), ih hbefore, List.cons_append]

theorem foldl_add_append {before : List TopicQueue}
    (h : ∀ a ∈ actions, a.topicOr fallback ∉ before.map (·.topic)) (queues : List TopicQueue) :
    actions.foldl (fun queues a => add (a.topicOr fallback) a queues) (before ++ queues) =
      before ++ actions.foldl (fun queues a => add (a.topicOr fallback) a queues) queues := by
  induction actions generalizing queues with
  | nil => rfl
  | cons a actions ih =>
    obtain ⟨ha, hactions⟩ := List.forall_mem_cons.mp h
    rw [List.foldl_cons, add_append a ha, ih hactions, List.foldl_cons]

/-- **Queues of different topics are what their lined-up actions are split into.** -/
theorem ofActions_queued (hsorted : Sorted fallback queues) (htopics : Distinct queues)
    (hfilled : ∀ q ∈ queues, q.actions ≠ []) :
    ofActions fallback (queued queues) = queues := by
  induction queues with
  | nil => rfl
  | cons q queues ih =>
    obtain ⟨hq, hqueues⟩ := List.forall_mem_cons.mp hsorted
    obtain ⟨hfresh, hdistinct⟩ := List.nodup_cons.mp htopics
    obtain ⟨hfirst, hothers⟩ := List.forall_mem_cons.mp hfilled
    have hone : ofActions fallback q.actions = [q] := ofActions_of_forall hq hfirst
    have hapart : ∀ a ∈ queued queues, a.topicOr fallback ∉ [q].map (·.topic) := by
      intro a ha htopic
      obtain ⟨r, hr, har⟩ := List.mem_flatMap.mp ha
      rw [hqueues r hr a har, List.map_singleton, List.mem_singleton] at htopic
      exact hfresh (List.mem_map.mpr ⟨r, hr, htopic⟩)
    have hrest : ofActions fallback (queued queues) = queues := ih hqueues hdistinct hothers
    unfold ofActions at hone hrest ⊢
    rw [queued_cons, List.foldl_append, hone, ← List.append_nil [q], foldl_add_append hapart, hrest]
    rfl

/-- **A batch is split by topic, and the order is kept.** An action goes by its own topic if it has
one that is not empty, and else by the fallback. There is one queue for each topic of the batch, in
the order in which the topics first occur, and it has the actions of its topic in their order. So
no queue is empty, no two have one topic, lined up they are the batch in another order, and lined up
and split again they are the same queues. -/
theorem stable_partition (fallback : String) (actions : List Action) :
    (∀ a : Action, a.topicOr fallback =
        match a.payload.topicId with
        | some topic => if topic = "" then fallback else topic
        | none => fallback) ∧
      ofActions fallback actions = (actions.map (·.topicOr fallback)).eraseDups.map (fun topic =>
        ⟨topic, actions.filter (·.topicOr fallback = topic)⟩) ∧
      (∀ q ∈ ofActions fallback actions, q.actions ≠ []) ∧
      ((ofActions fallback actions).map (·.topic)).Nodup ∧
      (linedUp fallback actions).Perm actions ∧
      ofActions fallback (linedUp fallback actions) = ofActions fallback actions := by
  have hdistinct := distinct_ofActions fallback actions
  refine ⟨Action.topicOr_eq fallback, ofActions_eq fallback actions, fun q => actions_ne_nil,
    hdistinct, linedUp_perm fallback actions, ?_⟩
  exact ofActions_queued (sorted_ofActions fallback actions) hdistinct fun q => actions_ne_nil

/-- A post in a topic of this name, which may be empty. -/
def samplePost (topic : String) : Action :=
  .queued "ann" .createPost (.newPost "hello" topic) ⟨topic⟩ .epoch

/-- A post without a topic and one in a topic that is named like the fallback share a queue. -/
example : ofActions "main" [samplePost "t", samplePost "", samplePost "main", samplePost "t"] =
    [⟨"t", [samplePost "t", samplePost "t"]⟩, ⟨"main", [samplePost "", samplePost "main"]⟩] := by
  decide +kernel

end TopicQueue
end Outbox
