import Outbox.Proofs.Report
import Outbox.Proofs.Sync.Conservation

/-!
# What a sync prints can be fed back

The actions in a report are those of the batch, and its conflicts have neither a remote action nor
merged data (`Run.Records.exists_found`, `Answers.Finds.eq_settle`). So the report of a well-formed
batch is well formed, and the actions that failed and the conflicts can be read again just as they
are, if their times can be read back (`formats_round_trip`). Nothing is assumed of the remote
system, of the schedule, or of the tasks that broke down.
-/

namespace Outbox

variable {w : Answers} {whole : List Action} {a : Action}

/-! ## What is reported -/

/-- A conflict that was found has a local side only. -/
theorem Answers.Finds.eq_settle {conflict : Option Conflict} (h : w.Finds a conflict) :
    ∀ c ∈ conflict, c = (Conflict.fresh a .timestamp).settle := by
  intro c hc
  cases h with
  | unasked _ => cases hc
  | @asked _ answer _ _ _ =>
    obtain ⟨found, hfound, rfl⟩ := Option.map_eq_some_iff.mp hc
    obtain ⟨rfl, -⟩ := Conflict.ofModification?_eq_some_iff.mp hfound
    rfl

/-- Findings about well-formed actions make up a report that is read as it is. -/
theorem Report.wellFormed_ofFindings {found : List Finding} (h : ∀ f ∈ found, w.Explains f)
    (hactions : ∀ f ∈ found, f.action.WellFormed) :
    (ofFindings found).WellFormed ∧ (ofFindings found).withoutNull = ofFindings found := by
  have hconflicts : ∀ c ∈ (ofFindings found).conflicts, c.WellFormed ∧ c.withoutNull = c := by
    intro c hc
    obtain ⟨f, hf, hconflict⟩ := List.mem_filterMap.mp hc
    rw [(h f hf).finds.eq_settle c hconflict]
    have hnone : ∀ a, a ∉ (Conflict.fresh f.action .timestamp).settle.remoteAction := fun a ha =>
      Option.not_mem_none a ha
    have hnull : ∀ j, j ∉ (Conflict.fresh f.action .timestamp).settle.mergedData := fun j hj =>
      Option.not_mem_none j hj
    exact ⟨⟨hactions f hf, fun a ha => absurd ha (hnone a), fun j hj => absurd hj (hnull j)⟩, rfl⟩
  have hfate : ∀ fate, ∀ a ∈ (found.filter (·.fate = fate)).map (·.action), a.WellFormed := by
    intro fate a ha
    obtain ⟨f, hf, rfl⟩ := List.mem_map.mp ha
    exact hactions f (List.mem_filter.mp hf).1
  refine ⟨⟨hfate .synced, fun c hc => (hconflicts c hc).1, hfate .failed⟩, ?_⟩
  have hsame : (ofFindings found).conflicts.map .withoutNull = (ofFindings found).conflicts :=
    (List.map_congr_left fun c hc => (hconflicts c hc).2).trans (List.map_id _)
  unfold withoutNull
  rw [hsame]

/-- **The report of a well-formed batch is well formed**, and reading it takes nothing away. -/
theorem Syncer.Serves.wellFormed_report {σ : Type} {remote : Remote σ} {config : Config}
    {actions : List Action} {s : Syncer σ} {moves : List Move} {run : Run} {shared : Shared σ}
    (h : s.Serves remote config actions moves run shared) (hactions : ∀ a ∈ actions, a.WellFormed) :
    run.report.WellFormed ∧ run.report.withoutNull = run.report := by
  obtain ⟨ledger, hqueues, hrecords, -⟩ :=
    Run.Records.follow? (remote.obeys_any config.limits) h.moved trivial
  obtain ⟨found, hreport, hfound, -⟩ := hrecords.exists_found
  rw [hreport]
  refine Report.wellFormed_ofFindings (fun f hf => (hfound f hf).1) fun f hf => hactions _ ?_
  have hmem := (hfound f hf).2
  rw [hqueues, TopicQueue.queued_map_actions] at hmem
  exact (TopicQueue.linedUp_perm config.fallbackTopic actions).mem_iff.mp hmem

/-! ## Written and read -/

/-- **What is written can be read again** as it was, exactly if the times of all actions in it can
be read back: actions, conflicts and reports. A merged payload that is null is the only thing that
gets lost, and a sync does not write one. So the report that a sync prints, and the actions that
failed and the conflicts in it, can be fed back without loss under that very condition. -/
theorem formats_round_trip :
    RoundTrips Action.decode Action.toJson Action.WellFormed Action.ReadsBack (fun a => a) ∧
      RoundTrips Conflict.decode Conflict.toJson Conflict.WellFormed Conflict.ReadsBack
        Conflict.withoutNull ∧
      RoundTrips Report.decode Report.toJson Report.WellFormed Report.ReadsBack
        Report.withoutNull ∧
      ∀ {σ : Type} (remote : Remote σ) (config : Config) (actions : List Action) (s : Syncer σ)
        (moves : List Move) (run : Run) (shared : Shared σ),
        s.Serves remote config actions moves run shared → (∀ a ∈ actions, a.WellFormed) →
          Gives (Report.decode run.report.toJson) run.report.ReadsBack run.report ∧
          (∃ printed, Fields.get? "failedActions" run.report.toJson.fields = some printed ∧
            Gives (Decode.list Action.decode printed) (∀ a ∈ run.report.failed, a.ReadsBack)
              run.report.failed) ∧
          ∃ printed, Fields.get? "conflicts" run.report.toJson.fields = some printed ∧
            Gives (Decode.list Conflict.decode printed) (∀ c ∈ run.report.conflicts, c.ReadsBack)
              run.report.conflicts := by
  refine ⟨Action.roundTrips, Conflict.roundTrips, Report.roundTrips, ?_⟩
  intro σ remote config actions s moves run shared hserves hactions
  obtain ⟨hgood, hnull⟩ := hserves.wellFormed_report hactions
  refine ⟨?_, ⟨_, rfl, ?_⟩, ⟨_, rfl, ?_⟩⟩
  · have hgives := Report.roundTrips.written run.report hgood
    rwa [hnull] at hgives
  · have hgives := Action.roundTrips.list.written run.report.failed hgood.failed
    rwa [List.map_id'] at hgives
  · have hgives := Conflict.roundTrips.list.written run.report.conflicts hgood.conflicts
    have hsame : run.report.conflicts.map .withoutNull = run.report.conflicts :=
      congrArg Report.conflicts hnull
    rwa [hsame] at hgives

/-- A post with a further field that holds an object. -/
def sampleNote : Action :=
  .queued "ann" .createPost
    { Payload.newPost "hello" "t1" with extra := [("draft", .obj [("saved", .bool true)])] } ⟨"a4"⟩
    .epoch

/-- The same post, queued in the year 10000. -/
def sampleFarNote : Action := { sampleNote with createdAt := ⟨253402300800000, by decide⟩ }

/-- A conflict whose merged payload is null. -/
def sampleNull : Conflict := (Conflict.fresh sampleNote .merge).mergingTo .null

theorem formats_sample :
    sampleNote.WellFormed ∧ sampleNote.ReadsBack ∧
      Action.decode sampleNote.toJson = .ok sampleNote ∧
      (∀ a, Action.decode sampleFarNote.toJson ≠ .ok a) ∧
      Conflict.decode sampleNull.toJson = .ok { sampleNull with mergedData := none } ∧
      (Syncer.start Syncer.sampleScript).Serves ScriptedRemote.remote .default Syncer.sampleBatch
        Syncer.sampleMoves Syncer.sampleRun Syncer.sampleShared ∧
      (∀ a ∈ Syncer.sampleBatch, a.WellFormed) ∧
      Report.decode Syncer.sampleRun.report.toJson = .ok Syncer.sampleRun.report := by
  obtain ⟨haction, hconflict, -, hserved⟩ := formats_round_trip
  have hnote : sampleNote.WellFormed := by
    constructor <;> simp [sampleNote, Action.queued, Payload.newPost, Json.WellFormed,
      Json.WellFormedFields, Fields.keys, Payload.knownNames]
  have hreads : sampleNote.ReadsBack := by decide
  have hfar : ¬ sampleFarNote.ReadsBack := by decide
  have hbatch : ∀ a ∈ Syncer.sampleBatch, a.WellFormed := by
    intro a ha
    have hextra : a.payload.extra = [] := by
      simp only [Syncer.sampleBatch, List.mem_cons, List.not_mem_nil, or_false] at ha
      rcases ha with rfl | rfl | rfl <;> rfl
    exact ⟨by rw [hextra]; exact ⟨List.nodup_nil, trivial⟩, by simp [hextra, Fields.keys]⟩
  have hreport : Syncer.sampleRun.report.ReadsBack := by
    constructor <;> decide
  have hprinted := (hserved _ _ _ _ _ _ _ Syncer.sample_serves hbatch).1
  refine ⟨hnote, hreads, (haction.written _ hnote).of_cond hreads, fun a ha => ?_, ?_,
    Syncer.sample_serves, hbatch, hprinted.of_cond hreport⟩
  · exact hfar ((haction.written sampleFarNote hnote a).mp ha).1
  · have hnull : sampleNull.WellFormed :=
      ⟨hnote, fun a ha => absurd ha (Option.not_mem_none a),
        fun j hj => Option.mem_some.mp hj ▸ trivial⟩
    exact (hconflict.written sampleNull hnull).of_cond (by decide)

end Outbox
