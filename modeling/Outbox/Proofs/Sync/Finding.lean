import Outbox.Proofs.Report.Append
import Outbox.Sync.Run

/-!
# Findings

A task finds out three things about an action: whether it has a conflict, how that conflict is
settled, and what becomes of the action. A report is what the findings about a list of actions add
up to (`Report.ofFindings`), and the report of two lists is the one report appended to the other
(`Report.ofFindings_append`). The progress of a sync counts findings, in whatever order they are
made (`Progress.counting`, `Progress.counting_perm`).

What a task can find out depends on the answers that it gets. `Answers` says which ones are to be
expected, and `Answers.Explains` which findings they allow:

* the conflict is that of a time which a look-up may give, and there is none where nothing is
  looked up (`Finds`);
* an action that lost its conflict makes no calls, one without an operation fails, and one with an
  operation is carried out when all calls are accepted and fails at one that is not (`Ends`).
-/

namespace Outbox

/-- What a task finds out about an action. -/
structure Finding where
  action : Action
  /-- Its conflict, settled, if it has one. -/
  conflict : Option Conflict
  fate : Fate
  deriving DecidableEq, Repr

/-- What the progress of a sync counts of a finding. -/
def Finding.outcome (f : Finding) : Fate × Bool := (f.fate, f.conflict.isSome)

/-! ## Reports of findings -/

namespace Report

/-- The report that findings add up to. -/
def ofFindings (found : List Finding) : Report where
  synced := (found.filter (·.fate = .synced)).map (·.action)
  conflicts := found.filterMap (·.conflict)
  failed := (found.filter (·.fate = .failed)).map (·.action)
  processed := .ofNat found.length

/-- A report once the next action is taken up and its conflict, if any, is noted. -/
def begun (r : Report) (conflict : Option Conflict) : Report :=
  { r with conflicts := r.conflicts ++ conflict.toList, processed := r.processed + 1 }

theorem begun_none (r : Report) : r.begun none = { r with processed := r.processed + 1 } := by
  unfold begun
  rw [Option.toList_none, List.append_nil]

theorem begun_some (r : Report) (c : Conflict) :
    { r.begun none with conflicts := (r.begun none).conflicts ++ [c] } = r.begun (some c) := by
  rw [begun_none]
  rfl

/-- **Findings add up.** -/
theorem ofFindings_append (found more : List Finding) :
    ofFindings (found ++ more) = (ofFindings found).append (ofFindings more) := by
  simp only [ofFindings, append, List.filter_append, List.map_append, List.filterMap_append,
    List.length_append, UInt64.ofNat_add]

/-- The reports of several lists of findings are one report of all of them. -/
theorem concat_ofFindings (founds : List (List Finding)) :
    concat (founds.map ofFindings) = ofFindings founds.flatten := by
  induction founds with
  | nil => rfl
  | cons found founds ih =>
    rw [List.map_cons, concat_cons, ih, ← ofFindings_append, List.flatten_cons]

theorem append_synced (r : Report) (a : Action) (conflict : Option Conflict) :
    r.append (ofFindings [⟨a, conflict, .synced⟩]) =
      { r.begun conflict with synced := r.synced ++ [a] } := by
  cases conflict <;> simp [ofFindings, append, begun]

theorem append_failed (r : Report) (a : Action) (conflict : Option Conflict) :
    r.append (ofFindings [⟨a, conflict, .failed⟩]) =
      { r.begun conflict with failed := r.failed ++ [a] } := by
  cases conflict <;> simp [ofFindings, append, begun]

theorem append_lost (r : Report) (a : Action) (conflict : Option Conflict) :
    r.append (ofFindings [⟨a, conflict, .lost⟩]) = r.begun conflict := by
  cases conflict <;> simp [ofFindings, append, begun]

theorem ofFindings_synced (found : List Finding) (a : Action) (conflict : Option Conflict) :
    ofFindings (found ++ [⟨a, conflict, .synced⟩]) =
      { (ofFindings found).begun conflict with synced := (ofFindings found).synced ++ [a] } := by
  rw [ofFindings_append, append_synced]

theorem ofFindings_failed (found : List Finding) (a : Action) (conflict : Option Conflict) :
    ofFindings (found ++ [⟨a, conflict, .failed⟩]) =
      { (ofFindings found).begun conflict with failed := (ofFindings found).failed ++ [a] } := by
  rw [ofFindings_append, append_failed]

theorem ofFindings_lost (found : List Finding) (a : Action) (conflict : Option Conflict) :
    ofFindings (found ++ [⟨a, conflict, .lost⟩]) = (ofFindings found).begun conflict := by
  rw [ofFindings_append, append_lost]

end Report

/-- The report of a run has what its tasks contribute, in the order of the topics. -/
theorem Run.report_eq_concat (r : Run) :
    r.report = Report.concat (r.tasks.map Task.contribution) := by
  unfold report Report.concat
  rw [List.foldl_map]

/-! ## Progress -/

namespace Progress

/-- The progress once the actions of some more findings are done with. -/
def counting (p : Progress) (found : List Finding) : Progress where
  total := p.total
  processed := p.processed + found.length
  synced := p.synced + (found.filter (·.fate = .synced)).length
  failed := p.failed + (found.filter (·.fate = .failed)).length
  conflicts := p.conflicts + (found.filterMap (·.conflict)).length

theorem counting_nil (p : Progress) : p.counting [] = p := rfl

theorem counting_append (p : Progress) (found more : List Finding) :
    (p.counting found).counting more = p.counting (found ++ more) := by
  simp only [counting, List.length_append, List.filter_append, List.filterMap_append,
    Nat.add_assoc]

theorem counting_singleton (p : Progress) (f : Finding) :
    p.counting [f] = p.count f.outcome.1 f.outcome.2 := by
  obtain ⟨a, conflict, fate⟩ := f
  cases conflict <;> cases fate <;> rfl

theorem counting_perm (p : Progress) {found found' : List Finding} (h : found.Perm found') :
    p.counting found = p.counting found' := by
  simp only [counting, h.length_eq, (h.filter _).length_eq, (h.filterMap _).length_eq]

end Progress

/-! ## Findings and answers -/

/-- The answers to be expected of a remote system. -/
structure Answers where
  /-- The answers that a look-up of an entity may get. -/
  lookup : Entity → Answer (Option Timestamp) → Prop
  /-- The answers that a call may get. -/
  call : Call → Answer Unit → Prop

/-- Whether an action is carried out in spite of its conflict, if it has one. -/
def Prevails (conflict : Option Conflict) : Prop := ∀ c ∈ conflict, Task.prevails c = true

namespace Answers

/-- The conflicts that can be found, settled. -/
inductive Finds (w : Answers) (a : Action) : Option Conflict → Prop where
  | unasked : a.lookupTarget? = none → Finds w a none
  | asked {entity : Entity} {answer : Answer (Option Timestamp)} :
      a.lookupTarget? = some entity → w.lookup entity answer → answer ≠ .breakdown →
      Finds w a ((Conflict.ofModification? a answer.time?).map Conflict.settle)

/-- What can become of an action with a settled conflict or none. -/
inductive Ends (w : Answers) (a : Action) : Option Conflict → Fate → Prop where
  | lost {c : Conflict} : Task.prevails c = false → Ends w a (some c) .lost
  | unfit {conflict : Option Conflict} {e : DeliveryError} :
      Prevails conflict → Operation.ofAction a = .error e → Ends w a conflict .failed
  | refused {conflict : Option Conflict} {op : Operation} {call : Call} {e : RemoteFault} :
      Prevails conflict → Operation.ofAction a = .ok op → call ∈ op.calls →
      w.call call (.error e) → Ends w a conflict .failed
  | carriedOut {conflict : Option Conflict} {op : Operation} :
      Prevails conflict → Operation.ofAction a = .ok op →
      (∀ call ∈ op.calls, w.call call (.value ())) → Ends w a conflict .synced

/-- The findings that the answers allow. -/
structure Explains (w : Answers) (f : Finding) : Prop where
  finds : w.Finds f.action f.conflict
  ends : w.Ends f.action f.conflict f.fate

end Answers
end Outbox
