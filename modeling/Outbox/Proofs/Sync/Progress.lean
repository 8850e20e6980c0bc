import Outbox.Proofs.Sync.Conservation

/-!
# The published progress agrees with the report

All tasks of a sync count what they are done with in the same counters. Whatever the remote system
answers and in whatever order the tasks go on, the counters agree with each other after every move
(`Progress.Consistent`), none of them goes back (`Progress.AtMost`), and in the end they say what
the report says. The actions that a task was done with before it broke down are counted and not
reported.

The counters count the findings that are on record, so it is enough to look at these:

* `Progress.consistent_counting`: counters of findings agree with each other.
* `Run.step?_atMost`: a move takes no counter back.
* `Syncer.Follows.progress`: what this comes to for the moves of a sync.
-/

namespace Outbox

/-! ## Counters -/

namespace Progress

/-- No counter has gone back. -/
structure AtMost (p q : Progress) : Prop where
  total : q.total = p.total
  processed : p.processed ≤ q.processed
  synced : p.synced ≤ q.synced
  failed : p.failed ≤ q.failed
  conflicts : p.conflicts ≤ q.conflicts

/-- The counters of a sync agree with each other and with the length of its batch. -/
structure Consistent (p : Progress) (batch : Nat) : Prop where
  total : p.total = batch
  /-- What was carried out or failed is done with. -/
  settled : p.synced + p.failed ≤ p.processed
  processed : p.processed ≤ batch
  conflicts : p.conflicts ≤ p.processed
  /-- What is done with otherwise lost a conflict. -/
  lost : p.processed - p.synced - p.failed ≤ p.conflicts

variable {p q r : Progress}

theorem AtMost.refl (p : Progress) : p.AtMost p :=
  ⟨rfl, Nat.le_refl _, Nat.le_refl _, Nat.le_refl _, Nat.le_refl _⟩

theorem AtMost.trans (h : p.AtMost q) (h' : q.AtMost r) : p.AtMost r where
  total := h'.total.trans h.total
  processed := Nat.le_trans h.processed h'.processed
  synced := Nat.le_trans h.synced h'.synced
  failed := Nat.le_trans h.failed h'.failed
  conflicts := Nat.le_trans h.conflicts h'.conflicts

/-- Counting takes no counter back. -/
theorem atMost_count (p : Progress) (fate : Fate) (conflicted : Bool) :
    p.AtMost (p.count fate conflicted) :=
  ⟨rfl, Nat.le_add_right _ _, Nat.le_add_right _ _, Nat.le_add_right _ _, Nat.le_add_right _ _⟩

/-- **Counters of findings agree with each other.** -/
theorem consistent_counting {w : Answers} {found : List Finding} {batch : Nat}
    (h : ∀ f ∈ found, w.Explains f) (hlength : found.length ≤ batch) :
    ((ofBatch batch).counting found).Consistent batch := by
  have hfates := (fates_perm found).length_eq
  simp only [List.length_append, List.length_map] at hfates
  -- Every action that lost has a conflict of its own.
  have hlost : (found.filter (·.fate = .lost)).length ≤ (found.filterMap (·.conflict)).length := by
    have hdiscarded := congrArg List.length (discarded_ofFindings h)
    simp only [Report.discarded, Report.ofFindings, List.length_map] at hdiscarded
    rw [← hdiscarded]
    exact List.length_filter_le _ _
  have hconflicts : (found.filterMap (·.conflict)).length ≤ found.length :=
    List.length_filterMap_le _ _
  unfold counting ofBatch none
  constructor <;> simp only <;> omega

end Progress

/-! ## Moves -/

namespace Run

variable {σ : Type} {remote : Remote σ} {limits : Limits}

/-- **A move takes no counter back.** -/
theorem step?_atMost {s s' : Run × Shared σ} {move : Move}
    (h : s.1.step? remote limits s.2 move = some s') : s.2.progress.AtMost s'.2.progress := by
  have hput : ∀ (i : Nat) (stride : Stride) (t : σ),
      s.2.progress.AtMost (s.1.put s.2 i stride t).2.progress := by
    rintro i ⟨task, done⟩ t
    cases done with
    | none => exact .refl _
    | some done => exact Progress.atMost_count _ done.1 done.2
  cases move with
  | start i =>
    obtain ⟨queue, -, -, rfl⟩ := step?_start.mp h
    exact .refl _
  | advance i =>
    obtain ⟨task, stride, t, -, -, rfl⟩ := step?_advance.mp h
    exact hput i stride t
  | expire i =>
    obtain ⟨task, stride, -, -, rfl⟩ := step?_expire.mp h
    exact hput i stride _

/-- A schedule takes no counter back. -/
theorem follow?_atMost {moves : List Move} {s s' : Run × Shared σ}
    (h : follow? remote limits moves s = some s') : s.2.progress.AtMost s'.2.progress :=
  follow?_keeps (I := fun s' => s.2.progress.AtMost s'.2.progress)
    (fun _ _ _ hbefore hstep => hbefore.trans (step?_atMost hstep)) h (.refl _)

/-- A schedule passes through the states of its beginnings. -/
theorem follow?_of_append {moves more : List Move} {s s' s'' : Run × Shared σ}
    (h : follow? remote limits (moves ++ more) s = some s'')
    (hmoves : follow? remote limits moves s = some s') :
    follow? remote limits more s' = some s'' := by
  unfold follow? at *
  rw [List.foldlM_append, hmoves] at h
  exact h

/-- The findings of all accounts are no more than the actions of their queues. -/
theorem Records.length_findingsOf {w : Answers} {ledger : List Account} {r : Run}
    (h : r.Records w ledger) :
    (∀ f ∈ findingsOf ledger, w.Explains f) ∧
      (findingsOf ledger).length ≤ (ledger.map (·.queue)).flatten.length := by
  obtain ⟨batch, tasks, places⟩ := r
  unfold Records at h
  simp only at h
  induction h with
  | nil => exact ⟨fun f hf => absurd hf List.not_mem_nil, Nat.le_refl _⟩
  | @cons account task ledger tasks hrecord _ ih =>
    obtain ⟨hexplained, hlength⟩ := ih
    obtain ⟨rest, hposition⟩ := hrecord.exists_position
    have hqueue := congrArg List.length hposition.split
    rw [List.length_append, List.length_map] at hqueue
    unfold findingsOf at *
    rw [List.flatMap_cons, List.map_cons, List.flatten_cons, List.length_append, List.length_append]
    exact ⟨List.forall_mem_append.mpr ⟨hposition.explained, hexplained⟩, by omega⟩

end Run

/-! ## Syncs -/

namespace Syncer

variable {σ : Type} {remote : Remote σ} {config : Config} {actions : List Action} {s : Syncer σ}
  {moves : List Move} {run : Run} {shared : Shared σ}

/-- The progress of a sync counts the findings that its tasks have on record. -/
theorem Follows.exists_counting (h : s.Follows remote config actions moves run shared) :
    ∃ ledger, run.Records Answers.any ledger ∧
      (ledger.map (·.queue)).flatten = TopicQueue.linedUp config.fallbackTopic actions ∧
      shared.progress = (Progress.ofBatch actions.length).counting (findingsOf ledger) := by
  obtain ⟨ledger, hqueues, hrecords, hprogress⟩ :=
    Run.Records.follow? (remote.obeys_any config.limits) h.moved trivial
  refine ⟨ledger, hrecords, ?_, hprogress⟩
  rw [hqueues, TopicQueue.queued_map_actions]
  rfl

/-- **The progress agrees with the report.** After whatever moves of a sync, the counters agree with
each other and with the length of the batch, and no further moves take one of them back. What is
done with is what has been reported and what tasks that have not reported were done with. When the
sync has come to its end and no task broke down, each action is done with and the counters say how
many actions and conflicts the report has. None of this depends on the progress before the sync. -/
theorem Follows.progress (h : s.Follows remote config actions moves run shared) :
    shared.progress.Consistent actions.length ∧
      (∀ more run' shared', s.Follows remote config actions (moves ++ more) run' shared' →
        shared.progress.AtMost shared'.progress) ∧
      (actions.length < UInt64.size →
        shared.progress.processed = run.report.processed.toNat + run.unreported.length) ∧
      (run.isDone = true → (∀ tally, Task.brokenDown tally ∉ run.tasks) →
        shared.progress = ⟨actions.length, actions.length, run.report.synced.length,
          run.report.failed.length, run.report.conflicts.length⟩) := by
  obtain ⟨ledger, hrecords, hqueues, hprogress⟩ := h.exists_counting
  obtain ⟨hexplained, hlength⟩ := hrecords.length_findingsOf
  rw [hqueues, (TopicQueue.linedUp_perm config.fallbackTopic actions).length_eq] at hlength
  refine ⟨?_, fun more run' shared' hmore => ?_, fun hsize => ?_, fun hdone hwhole => ?_⟩
  · rw [hprogress]
    exact Progress.consistent_counting hexplained hlength
  · exact Run.follow?_atMost (Run.follow?_of_append hmore.moved h.moved)
  · obtain ⟨found, hreport, -, hcount⟩ := hrecords.exists_found
    have hword : run.report.processed.toNat = found.length := by
      rw [hreport]
      exact UInt64.toNat_ofNat_of_lt (by omega)
    rw [hword, hcount, hprogress]
    exact Nat.zero_add _
  · obtain ⟨hreport, -, hactions⟩ := hrecords.report hdone hwhole
    have hall : (findingsOf ledger).length = actions.length := by
      rw [← (TopicQueue.linedUp_perm config.fallbackTopic actions).length_eq, ← hqueues, ← hactions,
        List.length_map]
    rw [hprogress, hreport]
    simp [Progress.counting, Progress.ofBatch, Progress.none, Report.ofFindings, hall]

/-- A syncer with the progress of an earlier sync, where the topic of the follow breaks down. -/
def leftoverSyncer : Syncer ScriptedRemote := ⟨.idle, ⟨⟨9, 9, 4, 3, 5⟩, brokenScript⟩, []⟩

/-- The follow fails, then the join breaks down, and then the like is carried out. -/
def leftoverMoves : List Move :=
  [.start 0] ++ List.replicate 4 (.advance 0) ++ [.start 1] ++ List.replicate 4 (.advance 1)

/-- The task that broke down had noted the follow. -/
def leftoverRun : Run :=
  ⟨3, [.brokenDown ⟨[], [], [sampleFollow], 2⟩, .finished ⟨[sampleLike], [], [], 1⟩], none⟩

/-- The progress, which counts the follow, and the log. -/
def leftoverShared : Shared ScriptedRemote where
  progress := ⟨3, 2, 1, 1, 0⟩
  remote := { brokenScript with calls := [.joinTopic "t", .likePost "p1"] }

/-- What was left over has no part in the progress, an action that was done with before its task
broke down is counted and not reported, and where nothing breaks down the counters say what the
report says. -/
theorem progress_sample :
    leftoverSyncer.Follows ScriptedRemote.remote .default [sampleFollow, sampleJoin, sampleLike]
        leftoverMoves leftoverRun leftoverShared ∧
      leftoverRun.unreported = [sampleFollow] ∧
      leftoverShared.progress.processed = leftoverRun.report.processed.toNat + 1 ∧
      sampleShared.progress = ⟨3, 3, sampleRun.report.synced.length,
        sampleRun.report.failed.length, sampleRun.report.conflicts.length⟩ := by
  have hfollows : leftoverSyncer.Follows ScriptedRemote.remote .default
      [sampleFollow, sampleJoin, sampleLike] leftoverMoves leftoverRun leftoverShared :=
    ⟨rfl, _, rfl, by decide +kernel⟩
  have hwhole : ∀ tally, Task.brokenDown tally ∉ sampleRun.tasks := by
    intro tally h
    simp [sampleRun] at h
  obtain ⟨-, -, hreported, -⟩ := hfollows.progress
  obtain ⟨-, -, -, hended⟩ := sample_serves.toFollows.progress
  exact ⟨hfollows, rfl, hreported (by decide), hended sample_serves.done hwhole⟩

end Syncer
end Outbox
