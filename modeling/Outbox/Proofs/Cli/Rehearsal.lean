import Outbox.Proofs.Cli.Files
import Outbox.Proofs.Sync.Effects
import Outbox.Proofs.Sync.Prompt

/-!
# What a rehearsal counts

A recording answers at once, so the limits of a configuration have no part in a rehearsal: it
reports what is to be expected of the queue and counts the calls of its actions
(`Cli.rehearse_eq`). The calls are those that any sync makes in which no answer is cut off
(`Cli.calls_made`).
-/

namespace Outbox

/-! ## Recordings -/

namespace ScriptedRemote

/-- A script as a recording leaves it: it answers from its tables and at once, and nothing has been
asked yet. -/
structure IsRecorded (script : ScriptedRemote) : Prop extends script.IsPlain where
  calls : script.calls = []
  callDelay : script.callDelay = none
  lookupDelay : script.lookupDelay = none

theorem isRecorded_empty : empty.IsRecorded := ⟨⟨rfl, rfl⟩, rfl, rfl, rfl⟩

/-- The times of modification are all that is set row by row. -/
theorem IsRecorded.modified {script : ScriptedRemote} (h : script.IsRecorded) (entity : Entity)
    (time : Timestamp) : (script.modified entity time).IsRecorded :=
  ⟨⟨h.nextFailure, h.breakdownTopics⟩, h.calls, h.callDelay, h.lookupDelay⟩

theorem isRecorded_ofRecording (times : List (Entity × Timestamp))
    (topics subscriptions posts lookups : List String) :
    (ofRecording times topics subscriptions posts lookups).IsRecorded := by
  have htimes : ∀ script : ScriptedRemote, script.IsRecorded →
      (times.foldl (fun s row => s.modified row.1 row.2) script).IsRecorded := by
    induction times with
    | nil => exact fun script h => h
    | cons row times ih => exact fun script h => ih _ (h.modified row.1 row.2)
  have h := htimes empty isRecorded_empty
  exact ⟨⟨h.nextFailure, h.breakdownTopics⟩, h.calls, h.callDelay, h.lookupDelay⟩

/-- **What is read as a recording is one.** -/
theorem isRecorded_of_decode {j : Json} {script : ScriptedRemote} (h : decode j = .ok script) :
    script.IsRecorded := by
  have hrecord : record.Always IsRecorded :=
    .seq_any (.seq_any (.seq_any (.seq_any (.map_any fun times topics subscriptions posts lookups =>
      isRecorded_ofRecording times topics subscriptions posts lookups))))
  exact hrecord.of_decode h

/-- A script without delays answers at once. -/
theorem prompt_remote :
    remote.Prompt fun s => s.callDelay = none ∧ s.lookupDelay = none where
  lookup s entity hs := ⟨by simp [remote, kept, hs.2], hs⟩
  call s call hs := ⟨by simp [remote, kept, hs.1], hs⟩

end ScriptedRemote

namespace Cli

/-! ## Rehearsals -/

/-- **A rehearsal reports what is to be expected and counts the calls of its actions**, whatever the
limits of the configuration are. It breaks down if the bound on the topics is too large. -/
theorem rehearse_eq {script : ScriptedRemote} (h : script.IsRecorded) (config : Config)
    (queue : List Action) :
    rehearse config script queue =
      if config.topicsAtATime ≤ mostPlaces then
        .ok ⟨script.expected (TopicQueue.linedUp config.fallbackTopic queue),
          (queue.map fun a => (script.callsOf a).length).sum⟩
      else .error .brokeDown := by
  unfold rehearse
  split
  · rename_i hbound
    obtain ⟨moves, run, shared, hmoves, hserves, hresult, hstate⟩ :=
      Syncer.sync_serves_promptly (.start script) config queue .full
        ScriptedRemote.prompt_remote ⟨h.callDelay, h.lookupDelay⟩ rfl hbound
    have hunlimited := hserves.unlimited hmoves
    have hreport := hunlimited.report_eq h.toIsPlain rfl rfl
    obtain ⟨made, hcalls, hmade⟩ := hunlimited.makes h.toIsPlain rfl rfl
    have hlength : shared.remote.calls.length =
        (queue.map fun a => (script.callsOf a).length).sum := by
      rw [hcalls]
      change (script.calls ++ made).length = _
      rw [h.calls, List.nil_append, hmade.once.length_eq, List.length_flatMap]
      rfl
    simp only [hresult, hstate, hlength, hreport]
    rfl
  · rename_i hbound
    have hsync : Syncer.sync ScriptedRemote.remote config none queue .full (.start script) =
        ⟨.brokeDown, 0, .full, { Syncer.start script with
          shared := ⟨.ofBatch queue.length, script⟩ }⟩ := by
      unfold Syncer.sync
      rw [Syncer.request_of_unbounded config queue rfl hbound]
      rfl
    rw [hsync]

/-- The actions in the file of a queue. -/
def queueOf (files : Files) (file : String) : Except Failure (List Action) :=
  readFile files (.items Action.record.focus) (Decode.list Action.decode) file

/-- The script in the file of a recording, if there is one. -/
def scriptOf (files : Files) : Option String → Except Failure ScriptedRemote
  | some file => readFile files ScriptedRemote.focus ScriptedRemote.decode file
  | none => .ok .empty

/-- The configuration in a file, if there is one. -/
def configOf (files : Files) : Option String → Except Failure Config
  | some file => (Config.ofFile (files file)).mapError fun _ => .badConfig
  | none => .ok .default

theorem rehearsalOfFiles_eq (files : Files) (queue : String) (remote config : Option String) :
    rehearsalOfFiles files queue remote config = (do
      let queue ← queueOf files queue
      let script ← scriptOf files remote
      let config ← configOf files config
      rehearse config script queue) := by
  cases remote <;> cases config <;> rfl

theorem isRecorded_scriptOf {files : Files} {file : Option String} {script : ScriptedRemote}
    (h : scriptOf files file = .ok script) : script.IsRecorded := by
  cases file with
  | none =>
    cases h
    exact ScriptedRemote.isRecorded_empty
  | some file =>
    obtain ⟨j, hj⟩ := of_readFile h
    exact ScriptedRemote.isRecorded_of_decode hj

/-- What the command prints is settled by its files. -/
theorem result_plan {files : Files} {queueFile : String} {remoteFile configFile : Option String}
    {queue : List Action} {script : ScriptedRemote} {config : Config}
    (hqueue : queueOf files queueFile = .ok queue)
    (hscript : scriptOf files remoteFile = .ok script)
    (hconfig : configOf files configFile = .ok config) (checkpoint : Option String) :
    (Command.plan queueFile remoteFile configFile checkpoint).result files =
      (rehearse config script queue).map Rehearsal.toJson := by
  unfold Command.result
  simp only [rehearsalOfFiles_eq, hqueue, hscript, hconfig]
  rfl

/-- **The calls of a sync are those of its actions**, and a rehearsal counts them. Whatever the
schedule, as long as no answer is cut off and nothing but the tables of the script decides about the
answers, the log has one sequence of calls for each topic, and the sequences take turns. The number
that a rehearsal prints is that of all these calls, whatever the limits of its configuration are. -/
theorem calls_made :
    (∀ (s : Syncer ScriptedRemote) config actions moves run shared,
      s.Serves ScriptedRemote.remote config actions moves run shared →
      s.shared.remote.IsPlain → NoneExpires moves →
        ∃ made, shared.remote.calls = s.shared.remote.calls ++ made ∧
          s.shared.remote.Makes config.fallbackTopic actions made) ∧
    ∀ files queueFile remoteFile configFile checkpoint queue script config,
      queueOf files queueFile = .ok queue → scriptOf files remoteFile = .ok script →
      configOf files configFile = .ok config →
        (Command.plan queueFile remoteFile configFile checkpoint).result files =
          if config.topicsAtATime ≤ mostPlaces then
            .ok (Rehearsal.toJson
              ⟨script.expected (TopicQueue.linedUp config.fallbackTopic queue),
                (queue.map fun a => (script.callsOf a).length).sum⟩)
          else .error .brokeDown := by
  constructor
  · intro s config actions moves run shared hserves hplain hmoves
    exact (hserves.unlimited hmoves).makes hplain rfl rfl
  · intro files queueFile remoteFile configFile checkpoint queue script config hqueue hscript
      hconfig
    rw [result_plan hqueue hscript hconfig, rehearse_eq (isRecorded_scriptOf hscript)]
    split
    · rfl
    · rfl

/-! ## A join whose subscription is refused -/

/-- A join in a queue, and a recording that refuses its subscription. -/
def sampleFiles : Files
  | "queue" => some (Json.arr [Syncer.sampleJoin.toJson]).compact.toUTF8
  | "recording" => some (Json.obj [("failingSubscriptions", .arr [.str "t"])]).compact.toUTF8
  | _ => none

/-- The script of the recording. -/
def sampleRecording : ScriptedRemote :=
  { ScriptedRemote.empty with refusedSubscriptions := ["t"] }

/-- A like is made while the join is under way. -/
def turnsMoves : List Move :=
  [.start 0, .start 1, .advance 0, .advance 0, .advance 1, .advance 1] ++
    List.replicate 4 (.advance 0) ++ List.replicate 2 (.advance 1)

/-- The join failed, as it is not complete without the subscription. -/
def turnsRun : Run :=
  ⟨2, [.finished ⟨[], [], [Syncer.sampleJoin], 1⟩, .finished ⟨[Syncer.sampleLike], [], [], 1⟩],
    none⟩

/-- The progress and the log: the join has not been undone. -/
def turnsShared : Shared ScriptedRemote where
  progress := ⟨2, 2, 1, 1, 0⟩
  remote :=
    { sampleRecording with calls := [.joinTopic "t", .likePost "p1", .subscribe "t"] }

/-- The log of the sync is a merge of the calls of the join and of the like, and the rehearsal of
the join alone counts two calls. -/
theorem calls_made_sample :
    (Syncer.start sampleRecording).Serves ScriptedRemote.remote .default
        [Syncer.sampleJoin, Syncer.sampleLike] turnsMoves turnsRun turnsShared ∧
      sampleRecording.IsPlain ∧ NoneExpires turnsMoves ∧
      (∃ made, turnsShared.remote.calls = made ∧ sampleRecording.Makes TopicQueue.commonTopic
        [Syncer.sampleJoin, Syncer.sampleLike] made) ∧
      queueOf sampleFiles "queue" = .ok [Syncer.sampleJoin] ∧
      scriptOf sampleFiles (some "recording") = .ok sampleRecording ∧
      (Command.plan "queue" (some "recording") none none).result sampleFiles =
        .ok (Rehearsal.toJson ⟨sampleRecording.expected [Syncer.sampleJoin], 2⟩) := by
  have hserves : (Syncer.start sampleRecording).Serves ScriptedRemote.remote .default
      [Syncer.sampleJoin, Syncer.sampleLike] turnsMoves turnsRun turnsShared :=
    ⟨⟨rfl, _, rfl, by decide +kernel⟩, rfl⟩
  have hplain : sampleRecording.IsPlain := ⟨rfl, rfl⟩
  have hmoves : NoneExpires turnsMoves := Run.noneExpires_of_follow? rfl rfl hserves.moved
  have hqueue : queueOf sampleFiles "queue" = .ok [Syncer.sampleJoin] := by decide +kernel
  have hscript : scriptOf sampleFiles (some "recording") = .ok sampleRecording := by decide +kernel
  have hcalls : sampleRecording.callsOf Syncer.sampleJoin = [.joinTopic "t", .subscribe "t"] := by
    decide +kernel
  obtain ⟨hsync, hplan⟩ := calls_made
  have hresult := hplan _ _ _ none none _ _ _ hqueue hscript rfl
  rw [if_pos (by decide), List.map_singleton, hcalls] at hresult
  exact ⟨hserves, hplain, hmoves, hsync _ _ _ _ _ _ hserves hplain hmoves, hqueue, hscript, hresult⟩

end Cli
end Outbox
