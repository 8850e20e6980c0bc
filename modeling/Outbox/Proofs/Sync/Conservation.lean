import Outbox.Proofs.Sync.Ledger
import Outbox.Proofs.Sync.Served

/-!
# No action is lost, none is reported twice

A report accounts for a batch (`Report.Accounts`) if each action of the batch was carried out,
failed, or lost its conflict, and none more often than it was submitted. `Syncer.Serves.accounts`
says this of every sync that is served without a breakdown, whatever the remote system answers and
in whatever order the tasks go on.

Each action has one finding, so it is enough to look at reports of findings:

* `Answers.Ends.lost_iff`: the actions that lost are those with a conflict that discards them.
* `fates_perm`: the findings fall into the three fates.
* `Run.Records.exists_found`: what is not in the report was found by a task that has not reported.
-/

namespace Outbox

/-- Whether a conflict keeps its local action from being carried out. -/
def Conflict.discards (c : Conflict) : Bool :=
  c.resolution ≠ some .local ∧ c.resolution ≠ some .merge

namespace Report

/-- The actions that lost their conflicts. -/
def discarded (r : Report) : List Action :=
  (r.conflicts.filter Conflict.discards).map (·.localAction)

/-- A report accounts for each action of a batch once. -/
structure Accounts (r : Report) (actions : List Action) : Prop where
  /-- Each action was carried out, failed, or lost its conflict. -/
  each : (r.synced ++ r.failed ++ r.discarded).Perm actions
  /-- The count is that of the batch, as far as a word can count. -/
  processed : r.processed = .ofNat actions.length
  /-- What is counted and in neither list are the actions that lost. -/
  lost : actions.length < UInt64.size → r.lost = r.discarded.length
  /-- No action has more conflicts than times that it was submitted. -/
  conflicted : (r.conflicts.map (·.localAction)).Subperm actions

end Report

/-! ## Conflicts and fates -/

variable {w : Answers} {a : Action} {found : List Finding}

theorem Conflict.discards_eq (c : Conflict) : c.discards = !Task.prevails c := by
  unfold discards Task.prevails
  cases c.resolution with
  | none => rfl
  | some r => cases r <;> rfl

theorem Conflict.localAction_of_ofModification? {t : Option Timestamp} {c : Conflict}
    (h : ofModification? a t = some c) : c.localAction = a := by
  obtain ⟨rfl, -⟩ := ofModification?_eq_some_iff.mp h
  rfl

/-- The conflict that an action has, settled, is about this action. -/
theorem Answers.Finds.localAction {conflict : Option Conflict} (h : w.Finds a conflict) :
    ∀ c ∈ conflict, c.localAction = a := by
  intro c hc
  cases h with
  | unasked _ => cases hc
  | asked _ _ _ =>
    obtain ⟨fresh, hfresh, rfl⟩ := Option.map_eq_some_iff.mp hc
    have hlocal := Conflict.localAction_of_ofModification? hfresh
    exact hlocal

/-- There is a conflict only where an entity is looked up. -/
theorem Answers.Finds.exists_target {conflict : Option Conflict} (h : w.Finds a conflict) :
    ∀ c ∈ conflict, ∃ entity, a.lookupTarget? = some entity := by
  intro c hc
  cases h with
  | unasked _ => cases hc
  | asked htarget _ _ => exact ⟨_, htarget⟩

/-- An action that prevails is not discarded. -/
theorem Prevails.not_discarded {conflict : Option Conflict} (h : Prevails conflict) :
    conflict.any Conflict.discards = false := by
  cases conflict with
  | none => rfl
  | some c =>
    rw [Option.any_some, c.discards_eq, h c rfl]
    rfl

/-- An action is lost if it has a conflict that discards it. -/
theorem Answers.Ends.lost_iff {conflict : Option Conflict} {fate : Fate}
    (h : w.Ends a conflict fate) : fate = .lost ↔ conflict.any Conflict.discards = true := by
  cases h with
  | @lost c hlost =>
    rw [Option.any_some, c.discards_eq, hlost]
    exact iff_of_true rfl rfl
  | unfit hprev _ =>
    rw [hprev.not_discarded]
    exact iff_of_false nofun Bool.false_ne_true
  | refused hprev _ _ _ =>
    rw [hprev.not_discarded]
    exact iff_of_false nofun Bool.false_ne_true
  | carriedOut hprev _ _ =>
    rw [hprev.not_discarded]
    exact iff_of_false nofun Bool.false_ne_true

/-! ## Findings fall into fates -/

theorem fates_perm (found : List Finding) :
    ((found.filter (·.fate = .synced)).map (·.action) ++
      (found.filter (·.fate = .failed)).map (·.action) ++
      (found.filter (·.fate = .lost)).map (·.action)).Perm (found.map (·.action)) := by
  induction found with
  | nil => exact List.Perm.refl _
  | cons f found ih =>
    have hcons := ih.cons f.action
    cases hfate : f.fate with
    | synced => simpa [hfate] using hcons
    | failed =>
      -- The action stands behind those that were carried out.
      simp only [hfate, List.filter_cons, List.map_cons, decide_true, ↓reduceIte, reduceCtorEq,
        decide_false, Bool.false_eq_true]
      rw [List.append_assoc]
      rw [List.append_assoc] at hcons
      exact List.perm_middle.trans hcons
    | lost =>
      simp only [hfate, List.filter_cons, List.map_cons, decide_true, ↓reduceIte, reduceCtorEq,
        decide_false, Bool.false_eq_true]
      exact List.perm_middle.trans hcons

/-- Where each conflict is about the action of its entry, the actions that are discarded are those
of the entries with a conflict that discards. -/
theorem Report.discarded_of_filterMap {α : Type} {r : Report} {entries : List α}
    {conflict : α → Option Conflict} {action : α → Action}
    (hconflicts : r.conflicts = entries.filterMap conflict)
    (hlocal : ∀ e ∈ entries, ∀ c ∈ conflict e, c.localAction = action e) :
    r.discarded = (entries.filter fun e => (conflict e).any Conflict.discards).map action := by
  unfold discarded
  rw [hconflicts]
  clear hconflicts
  induction entries with
  | nil => rfl
  | cons e entries ih =>
    obtain ⟨he, hentries⟩ := List.forall_mem_cons.mp hlocal
    rcases hconflict : conflict e with _ | c
    · rw [List.filterMap_cons_none hconflict, List.filter_cons_of_neg (by simp [hconflict]),
        ih hentries]
    · rw [List.filterMap_cons_some hconflict, List.filter_cons, List.filter_cons, hconflict,
        Option.any_some]
      by_cases hc : c.discards = true
      · rw [if_pos hc, if_pos hc, List.map_cons, List.map_cons, ih hentries, he c hconflict]
      · rw [if_neg hc, if_neg hc, ih hentries]

/-- The conflicts that discard their actions are those of the actions that are lost. -/
theorem discarded_ofFindings (h : ∀ f ∈ found, w.Explains f) :
    (Report.ofFindings found).discarded = (found.filter (·.fate = .lost)).map (·.action) := by
  have hlocal : ∀ f ∈ found, ∀ c ∈ f.conflict, c.localAction = f.action := fun f hf =>
    (h f hf).finds.localAction
  rw [Report.discarded_of_filterMap rfl hlocal]
  refine congrArg (List.map _) (List.filter_congr fun f hf => ?_)
  rw [Bool.eq_iff_iff, decide_eq_true_iff]
  exact (h f hf).ends.lost_iff.symm

/-- An action has at most one conflict for each time that it was submitted. -/
theorem conflicted_ofFindings (h : ∀ f ∈ found, w.Explains f) :
    ((Report.ofFindings found).conflicts.map (·.localAction)).Sublist (found.map (·.action)) := by
  unfold Report.ofFindings
  simp only
  induction found with
  | nil => exact List.Sublist.refl _
  | cons f found ih =>
    obtain ⟨hf, hfound⟩ := List.forall_mem_cons.mp h
    cases hconflict : f.conflict with
    | none =>
      rw [List.filterMap_cons_none (f := Finding.conflict) hconflict, List.map_cons]
      exact (ih hfound).cons f.action
    | some c =>
      have hlocal := hf.finds.localAction c hconflict
      rw [List.filterMap_cons_some (f := Finding.conflict) hconflict, List.map_cons, List.map_cons,
        hlocal]
      exact (ih hfound).cons_cons f.action

/-- **Findings account for their actions.** -/
theorem accounts_ofFindings {actions : List Action} (h : ∀ f ∈ found, w.Explains f)
    (hperm : (found.map (·.action)).Perm actions) :
    (Report.ofFindings found).Accounts actions := by
  have hlength : found.length = actions.length := by
    rw [← hperm.length_eq, List.length_map]
  have hfates := fates_perm found
  refine ⟨?_, ?_, fun hsize => ?_, ?_⟩
  · rw [discarded_ofFindings h]
    exact hfates.trans hperm
  · rw [← hlength]
    rfl
  · have hcount := hfates.length_eq
    have hall : (found.map (·.action)).length = found.length := List.length_map _
    rw [List.length_append, List.length_append, hall] at hcount
    have hword : (UInt64.ofNat found.length).toNat = found.length := by
      rw [hlength]
      exact UInt64.toNat_ofNat_of_lt hsize
    rw [discarded_ofFindings h]
    unfold Report.lost Report.ofFindings
    simp only
    rw [hword]
    omega
  · exact (conflicted_ofFindings h).subperm.trans hperm.subperm

/-! ## What tasks report -/

/-- The actions that are done with. -/
def Report.completed (r : Report) : List Action := r.synced ++ r.failed ++ r.discarded

/-- The actions that a task is done with and has not reported: a task reports when it has finished,
and one that broke down never does. -/
def Task.unreported : Task → List Action
  | .waiting _ => []
  | .active _ _ tally => tally.completed
  | .finished _ => []
  | .brokenDown tally => tally.completed

/-- The actions that are done with and not reported. -/
def Run.unreported (r : Run) : List Action := r.tasks.flatMap Task.unreported

/-- Findings are about actions that are done with. -/
theorem length_completed (h : ∀ f ∈ found, w.Explains f) :
    (Report.ofFindings found).completed.length = found.length := by
  have hfates := (fates_perm found).length_eq
  unfold Report.completed
  rw [discarded_ofFindings h]
  rw [List.length_map] at hfates
  exact hfates

/-- An action that is taken up is not done with, and its conflict does not discard it. -/
theorem completed_begun (r : Report) {conflict : Option Conflict} (h : Prevails conflict) :
    (r.begun conflict).completed = r.completed := by
  have hkept : conflict.toList.filter Conflict.discards = [] := by
    refine List.filter_eq_nil_iff.mpr fun c hc => ?_
    rw [c.discards_eq, h c (Option.mem_toList.mp hc)]
    exact Bool.false_ne_true
  unfold Report.completed Report.discarded Report.begun
  rw [List.filter_append, hkept, List.append_nil]

/-- What a task adds to the report are findings about its queue, and it has not reported the others
that it made. -/
theorem Task.Records.exists_contribution {whole : List Action} {task : Task}
    (h : task.Records w whole found) :
    ∃ reported, task.contribution = .ofFindings reported ∧
      (∀ f ∈ reported, w.Explains f ∧ f.action ∈ whole) ∧
      reported.length + task.unreported.length = found.length := by
  -- A task that has not finished has reported nothing.
  have hnothing {queue : List Action} {conflict : Option Conflict}
      (h : Position w whole found queue) (hprev : Prevails conflict) : ∃ reported, Report.empty = .ofFindings reported ∧
        (∀ f ∈ reported, w.Explains f ∧ f.action ∈ whole) ∧
        reported.length + ((Report.ofFindings found).begun conflict).completed.length =
          found.length := by
    refine ⟨[], rfl, fun f hf => absurd hf List.not_mem_nil, ?_⟩
    rw [completed_begun _ hprev, length_completed h.explained]
    exact Nat.zero_add _
  have hnone : Prevails none := fun c hc => absurd hc (Option.not_mem_none c)
  cases h with
  | waiting => exact ⟨[], rfl, fun f hf => absurd hf List.not_mem_nil, rfl⟩
  | between h =>
    have hcompleted := hnothing h hnone
    rwa [completed_begun _ hnone] at hcompleted
  | lookingUp h _ _ => exact hnothing h hnone
  | calling h hu _ => exact hnothing h hu.prevails
  | finished h =>
    refine ⟨found, rfl, fun f hf => ⟨h.explained f hf, ?_⟩, rfl⟩
    rw [h.split, List.append_nil]
    exact List.mem_map_of_mem hf
  | brokenDown h _ hprev => exact hnothing h hprev

/-- **A report is made up of findings about the batch**, also if tasks broke down, and the tasks
have not reported the other findings that were made. -/
theorem Run.Records.exists_found {ledger : List Account} {r : Run} (h : r.Records w ledger) :
    ∃ found, r.report = .ofFindings found ∧
      (∀ f ∈ found, w.Explains f ∧ f.action ∈ (ledger.map (·.queue)).flatten) ∧
      found.length + r.unreported.length = (findingsOf ledger).length := by
  obtain ⟨batch, tasks, places⟩ := r
  rw [report_eq_concat]
  unfold Records at h
  unfold unreported
  simp only at h ⊢
  induction h with
  | nil => exact ⟨[], rfl, fun f hf => absurd hf List.not_mem_nil, rfl⟩
  | @cons account task ledger tasks hrecord _ ih =>
    obtain ⟨reported, hcontribution, hreported, hcount⟩ := hrecord.exists_contribution
    obtain ⟨found, hfound, hmem, hrest⟩ := ih
    refine ⟨reported ++ found, ?_, fun f hf => ?_, ?_⟩
    · rw [List.map_cons, Report.concat_cons, hcontribution, hfound, Report.ofFindings_append]
    · rw [List.map_cons, List.flatten_cons, List.mem_append]
      rcases List.mem_append.mp hf with hf | hf
      · exact ⟨(hreported f hf).1, Or.inl (hreported f hf).2⟩
      · exact ⟨(hmem f hf).1, Or.inr (hmem f hf).2⟩
    · unfold findingsOf at hrest ⊢
      rw [List.flatMap_cons, List.flatMap_cons, List.length_append, List.length_append,
        List.length_append]
      omega

/-! ## Syncs -/

/-- Any answer may come. -/
def Answers.any : Answers := ⟨fun _ _ => True, fun _ _ => True⟩

theorem Remote.obeys_any {σ : Type} (remote : Remote σ) (limits : Limits) :
    remote.Obeys limits (fun _ => True) Answers.any where
  lookup _ _ _ := ⟨trivial, trivial⟩
  call _ _ _ := ⟨trivial, trivial⟩
  lookupLimit _ _ := trivial
  deliveryLimit _ _ := trivial

/-- **Every sync accounts for its batch**: whatever the remote system answers, in whatever order
the tasks go on and limits cut off answers, the report of a sync in which nothing broke down has
each action of the batch once. -/
theorem Syncer.Serves.accounts {σ : Type} {remote : Remote σ} {config : Config}
    {actions : List Action} {s : Syncer σ} {moves : List Move} {run : Run} {shared : Shared σ}
    (h : s.Serves remote config actions moves run shared)
    (hwhole : ∀ tally, Task.brokenDown tally ∉ run.tasks) : run.report.Accounts actions := by
  obtain ⟨found, hreport, hexplained, hactions⟩ :=
    Run.report_of_follow? (remote.obeys_any config.limits) h.moved trivial h.done hwhole
  rw [hreport]
  refine accounts_ofFindings hexplained ?_
  rw [hactions]
  exact TopicQueue.linedUp_perm config.fallbackTopic actions

/-- One action of each fate. -/
theorem Syncer.sample_accounts :
    (start sampleScript).Serves ScriptedRemote.remote .default sampleBatch sampleMoves sampleRun
        sampleShared ∧
      (∀ tally, Task.brokenDown tally ∉ sampleRun.tasks) ∧
      sampleRun.report.Accounts sampleBatch := by
  have hwhole : ∀ tally, Task.brokenDown tally ∉ sampleRun.tasks := by
    intro tally h
    simp [sampleRun] at h
  exact ⟨sample_serves, hwhole, sample_serves.accounts hwhole⟩

end Outbox
