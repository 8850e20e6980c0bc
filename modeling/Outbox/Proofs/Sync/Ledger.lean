import Outbox.Proofs.Sync.Record
import Outbox.Proofs.Topic
import Mathlib.Data.List.Forall2

/-!
# What a run has on record

The ledger of a run has an account for each task: its queue, and the findings it has made. Moves
keep the records of all tasks, whatever their order, and the progress counts the findings
(`Run.Records.step?`, `Run.Records.follow?`).

When all tasks have finished, the findings of the accounts, one account after the other, are about
the lined-up queues of all topics, and the report is what they add up to (`Run.Records.report`,
`Run.report_of_follow?`).
-/

namespace Outbox

/-- A queue and the findings that were made about a first part of it. -/
structure Account where
  queue : List Action
  found : List Finding
  deriving DecidableEq, Repr

variable {w : Answers} {ledger : List Account}

/-- Every task has on record what its account says. -/
def Run.Records (w : Answers) (ledger : List Account) (r : Run) : Prop :=
  List.Forall₂ (fun account task => Task.Records w account.queue account.found task) ledger r.tasks

/-- The findings of all accounts, one account after the other. -/
def findingsOf (ledger : List Account) : List Finding := ledger.flatMap (·.found)

section Forall₂

variable {α β : Type} {R : α → β → Prop} {l : List α} {m : List β} {i : Nat}

theorem exists_of_forall₂ {b : β} (h : List.Forall₂ R l m) (hb : m[i]? = some b) :
    ∃ a, l[i]? = some a ∧ R a b := by
  induction h generalizing i with
  | nil => cases hb
  | @cons a' b' l m hab _ ih =>
    cases i with
    | zero =>
      cases hb
      exact ⟨a', rfl, hab⟩
    | succ i => exact ih hb

theorem forall₂_set {a : α} {b : β} (h : List.Forall₂ R l m) (hab : R a b) :
    List.Forall₂ R (l.set i a) (m.set i b) := by
  induction h generalizing i with
  | nil => exact List.Forall₂.nil
  | cons hab' h ih =>
    cases i with
    | zero => exact List.Forall₂.cons hab h
    | succ i => exact List.Forall₂.cons hab' ih

theorem forall₂_imp_of_mem {S : α → β → Prop} (h : List.Forall₂ R l m)
    (himp : ∀ a, ∀ b ∈ m, R a b → S a b) : List.Forall₂ S l m := by
  induction h with
  | nil => exact List.Forall₂.nil
  | cons hab _ ih =>
    obtain ⟨hhead, htail⟩ := List.forall_mem_cons.mp fun b hb a => himp a b hb
    exact List.Forall₂.cons (hhead _ hab) (ih fun a b hb => htail b hb a)

end Forall₂

namespace Run

variable {r : Run}

theorem records_ofActions (w : Answers) (config : Config) (actions : List Action) :
    (ofActions config actions).Records w
      ((TopicQueue.ofActions config.fallbackTopic actions).map fun q => ⟨q.actions, []⟩) := by
  unfold Records ofActions
  rw [List.forall₂_map_left_iff, List.forall₂_map_right_iff, List.forall₂_same]
  intro q _
  exact .waiting

/-- Findings that are entered into an account are among those of the ledger. -/
theorem findingsOf_set {i : Nat} {account : Account} (h : ledger[i]? = some account)
    (new : List Finding) :
    (findingsOf (ledger.set i ⟨account.queue, account.found ++ new⟩)).Perm
      (findingsOf ledger ++ new) := by
  induction ledger generalizing i with
  | nil => cases h
  | cons first ledger ih =>
    unfold findingsOf at ih ⊢
    cases i with
    | zero =>
      cases h
      rw [List.set_cons_zero, List.flatMap_cons, List.flatMap_cons, List.append_assoc,
        List.append_assoc]
      exact List.Perm.append_left _ List.perm_append_comm
    | succ i =>
      rw [List.set_cons_succ, List.flatMap_cons, List.flatMap_cons, List.append_assoc]
      exact List.Perm.append_left _ (ih h)

/-- A task that is replaced by one that has more on record has its account brought up to date. -/
theorem Records.set {i : Nat} {task : Task} {stride : Stride} (h : r.Records w ledger)
    (htask : r.tasks[i]? = some task)
    (hstep : ∀ account : Account, task.Records w account.queue account.found →
      stride.Records w account.queue account.found) :
    ∃ (ledger' : List Account) (new : Option Finding),
      ledger'.map (·.queue) = ledger.map (·.queue) ∧
      List.Forall₂ (fun account task => Task.Records w account.queue account.found task) ledger'
        (r.tasks.set i stride.task) ∧
      (findingsOf ledger').Perm (findingsOf ledger ++ new.toList) ∧
      stride.done = new.map Finding.outcome := by
  obtain ⟨account, haccount, hrecord⟩ := exists_of_forall₂ h htask
  obtain ⟨new, hrecord', hdone⟩ := hstep account hrecord
  exact ⟨ledger.set i ⟨account.queue, account.found ++ new.toList⟩, new,
    map_set_of_eq haccount rfl, forall₂_set h hrecord', findingsOf_set haccount _, hdone⟩

variable {σ : Type} {remote : Remote σ} {limits : Limits} {good : σ → Prop}

/-- The progress counts the finding that a step makes, if it makes one. -/
theorem progress_put {shared : Shared σ} {i : Nat} {stride : Stride} {new : Option Finding}
    (h : stride.done = new.map Finding.outcome) (t : σ) :
    (r.put shared i stride t).2.progress = shared.progress.counting new.toList := by
  unfold put
  rw [h]
  cases new with
  | none => rfl
  | some f => exact (shared.progress.counting_singleton f).symm

/-- **A move keeps all records** and the queues of the accounts, and what is found with it is
counted. -/
theorem Records.step? (hw : remote.Obeys limits good w) {s s' : Run × Shared σ} {move : Move}
    (h : s.1.Records w ledger) (hs : good s.2.remote)
    (hstep : s.1.step? remote limits s.2 move = some s') :
    ∃ (ledger' : List Account) (new : Option Finding),
      ledger'.map (·.queue) = ledger.map (·.queue) ∧ s'.1.Records w ledger' ∧
      good s'.2.remote ∧ (findingsOf ledger').Perm (findingsOf ledger ++ new.toList) ∧
      s'.2.progress = s.2.progress.counting new.toList := by
  cases move with
  | start i =>
    obtain ⟨queue, htask, -, rfl⟩ := step?_start.mp hstep
    obtain ⟨ledger', new, hqueues, h', hperm, hdone⟩ :=
      h.set htask fun account hrecord => hrecord.begun
    cases new with
    | some f => cases hdone
    | none => exact ⟨ledger', none, hqueues, h', hs, hperm, rfl⟩
  | advance i =>
    obtain ⟨task, stride, t, htask, hadvance, rfl⟩ := step?_advance.mp hstep
    have hadvances := Task.Advances.of_advance? hadvance
    obtain ⟨ledger', new, hqueues, h', hperm, hdone⟩ := h.set htask fun account hrecord =>
      (hrecord.advance hw hs hadvances).1
    obtain ⟨account, -, hrecord⟩ := exists_of_forall₂ h htask
    exact ⟨ledger', new, hqueues, h', (hrecord.advance hw hs hadvances).2, hperm,
      progress_put hdone t⟩
  | expire i =>
    obtain ⟨task, stride, htask, hexpire, rfl⟩ := step?_expire.mp hstep
    obtain ⟨ledger', new, hqueues, h', hperm, hdone⟩ := h.set htask fun account hrecord =>
      hrecord.expire hw (Task.Expires.of_expire? hexpire)
    exact ⟨ledger', new, hqueues, h', hs, hperm, progress_put hdone _⟩

variable {config : Config} {actions : List Action} {shared : Shared σ} {moves : List Move}
  {s : Run × Shared σ}

/-- **Every schedule keeps all records**, and what is found is counted. -/
theorem Records.follow? (hw : remote.Obeys limits good w)
    (h : follow? remote limits moves (ofActions config actions, shared) = some s)
    (hs : good shared.remote) :
    ∃ ledger, ledger.map (·.queue) =
        (TopicQueue.ofActions config.fallbackTopic actions).map (·.actions) ∧
      s.1.Records w ledger ∧ s.2.progress = shared.progress.counting (findingsOf ledger) := by
  have hkeeps := follow?_keeps (I := fun s => ∃ ledger, ledger.map (·.queue) =
      (TopicQueue.ofActions config.fallbackTopic actions).map (·.actions) ∧
      s.1.Records w ledger ∧ s.2.progress = shared.progress.counting (findingsOf ledger) ∧
      good s.2.remote) ?_ h ⟨_, ?_, records_ofActions w config actions, ?_, hs⟩
  · obtain ⟨ledger, hqueues, hrecords, hprogress, -⟩ := hkeeps
    exact ⟨ledger, hqueues, hrecords, hprogress⟩
  · rintro s move s' ⟨ledger, hqueues, hrecords, hprogress, hgood⟩ hstep
    obtain ⟨ledger', new, hqueues', hrecords', hgood', hperm, hcounted⟩ :=
      hrecords.step? hw hgood hstep
    refine ⟨ledger', hqueues'.trans hqueues, hrecords', ?_, hgood'⟩
    rw [hcounted, hprogress, Progress.counting_append, Progress.counting_perm _ hperm]
  · rw [List.map_map]
    rfl
  · -- Nothing has been found yet.
    have hnone : findingsOf ((TopicQueue.ofActions config.fallbackTopic actions).map fun q =>
        (⟨q.actions, []⟩ : Account)) = [] := by
      unfold findingsOf
      rw [List.flatMap_map]
      exact List.flatMap_eq_nil_iff.mpr fun q _ => rfl
    rw [hnone, Progress.counting_nil]

/-- Nothing breaks down where no answer makes it. -/
theorem whole_of_follow? (hw : remote.Obeys limits good w)
    (h : follow? remote limits moves (ofActions config actions, shared) = some s)
    (hs : good shared.remote) (hnone : ∀ a, ¬ w.BreaksDown a) (tally : Report) :
    Task.brokenDown tally ∉ s.1.tasks := by
  intro hmem
  obtain ⟨ledger, -, hrecords, -⟩ := Records.follow? hw h hs
  obtain ⟨i, htask⟩ := List.mem_iff_getElem?.mp hmem
  obtain ⟨account, -, hrecord⟩ := exists_of_forall₂ hrecords htask
  generalize account.found = found at hrecord
  cases hrecord with
  | brokenDown _ hbreaks _ => exact hnone _ hbreaks

/-! ## The report -/

/-- The report of a run is what the findings that its tasks report add up to. -/
theorem report_of_contributions {founds : List (List Finding)}
    (h : r.tasks.map Task.contribution = founds.map .ofFindings) :
    r.report = .ofFindings founds.flatten := by
  rw [report_eq_concat, h, Report.concat_ofFindings]

/-- **The report of a run is what the findings of its accounts add up to.** -/
theorem Records.report (h : r.Records w ledger) (hdone : r.isDone = true)
    (hwhole : ∀ tally, Task.brokenDown tally ∉ r.tasks) :
    r.report = .ofFindings (findingsOf ledger) ∧ (∀ f ∈ findingsOf ledger, w.Explains f) ∧
      (findingsOf ledger).map (·.action) = (ledger.map (·.queue)).flatten := by
  have hended : List.Forall₂ (fun account task => Position w account.queue account.found [] ∧
      Task.contribution task = .ofFindings account.found) ledger r.tasks := by
    refine forall₂_imp_of_mem h fun account task hmem hrecord => ?_
    refine hrecord.of_isEnded (List.all_eq_true.mp hdone task hmem) fun tally htask => ?_
    exact hwhole tally (htask ▸ hmem)
  obtain ⟨hpositions, hcontributions⟩ := (List.forall₂_and_left _ _).mp hended
  have hfounds : r.tasks.map Task.contribution =
      (ledger.map (·.found)).map Report.ofFindings := by
    rw [List.map_map, eq_comm, ← List.forall₂_eq_eq_eq, List.forall₂_map_left_iff,
      List.forall₂_map_right_iff]
    exact hcontributions.imp fun _ _ h => h.symm
  refine ⟨report_of_contributions hfounds, ?_, ?_⟩
  · intro f hf
    obtain ⟨account, haccount, hf⟩ := List.mem_flatMap.mp hf
    exact (hpositions account haccount).explained f hf
  · unfold findingsOf
    rw [List.map_flatMap, List.flatMap_def, List.map_congr_left fun account haccount => ?_]
    rw [(hpositions account haccount).split, List.append_nil]

/-- **The report of a schedule that is done** is made up of findings about the batch, lined up by
topic. -/
theorem report_of_follow? (hw : remote.Obeys limits good w)
    (h : follow? remote limits moves (ofActions config actions, shared) = some s)
    (hs : good shared.remote) (hdone : s.1.isDone = true)
    (hwhole : ∀ tally, Task.brokenDown tally ∉ s.1.tasks) :
    ∃ found, s.1.report = .ofFindings found ∧ (∀ f ∈ found, w.Explains f) ∧
      found.map (·.action) = TopicQueue.linedUp config.fallbackTopic actions := by
  obtain ⟨ledger, hqueues, hrecords, -⟩ := Records.follow? hw h hs
  obtain ⟨hreport, hexplained, hactions⟩ := hrecords.report hdone hwhole
  refine ⟨findingsOf ledger, hreport, hexplained, ?_⟩
  rw [hactions, hqueues, TopicQueue.queued_map_actions]
  rfl

end Run
end Outbox
