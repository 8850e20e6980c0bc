import Outbox.Cli.Arguments
import Outbox.Config.File
import Outbox.EntityStatus
import Outbox.Json.Printer
import Outbox.Json.Reader
import Outbox.Remote.Recorded
import Outbox.Snapshot.Changes
import Outbox.Snapshot.Replay
import Outbox.Syncer

/-!
# The command-line program

`run` is what the program does, given its arguments and the files that it finds. It prints one
JSON value over several lines, or fails with a message on the first file that it cannot read or
parse. Files are read and parsed in the order in which the command names them. Fields of actions
and of recordings that mean nothing here are skipped unseen, so their values may be numbers and
strings that are none.

* `diff` prints the patches that lead from one snapshot to another.
* `patch` replays patches on a snapshot.
* `plan` rehearses a sync of a queue against a recorded remote system, and prints the report, the
  state of the entities after it, and the number of calls.

`readFile` models `read_json`, `changesOfFiles` and `patchedFile` model `diff_files` and
`patch_files`, and `rehearsalOfFiles` models `build_plan`, whose result `Plan` is a `Rehearsal`.
-/

namespace Outbox.Cli

/-- The bytes of a file, if it can be found. -/
abbrev Files := String → Option ByteArray

/-- Why a command failed. -/
inductive Failure where
  | unreadable (file : String)
  | unparsable (file : String)
  | badConfig
  | busy
  /-- The program broke down. -/
  | brokeDown
  deriving DecidableEq, Repr

/-- The message of a failure; a breakdown has none. -/
def Failure.message? : Failure → Option String
  | .unreadable file => some ("Error: Failed to read " ++ file)
  | .unparsable file => some ("Error: Failed to parse " ++ file)
  | .badConfig => some "Error: Failed to load engine config"
  | .busy => some "Error: Sync failed"
  | .brokeDown => none

/-- How the program ended: its exit code, what it printed, and its message if it failed. -/
structure Ending where
  exit : Nat
  output : String
  message : Option String
  deriving DecidableEq, Repr

/-- Reads a file and decodes the parts of its JSON value that are looked at. -/
def readFile {α : Type} (files : Files) (focus : Focus) (decode : Decoder α) (file : String) :
    Except Failure α :=
  match (files file).bind textOfBytes? with
  | none => .error (.unreadable file)
  | some text =>
    match (Json.readFor? focus text).map decode with
    | some (.ok a) => .ok a
    | _ => .error (.unparsable file)

/-- The patches between the snapshots in two files. -/
def changesOfFiles (files : Files) (old new : String) : Except Failure (List Patch) := do
  let old ← readFile files .whole Decode.value old
  let new ← readFile files .whole Decode.value new
  return Snapshot.changes old new

/-- The snapshot in a file after the patches in another. -/
def patchedFile (files : Files) (data patches : String) : Except Failure Json := do
  let data ← readFile files .whole Decode.value data
  let patches ← readFile files .whole (Decode.list Patch.decode) patches
  return Snapshot.replay data patches

/-- The outcome of a rehearsal. -/
structure Rehearsal where
  report : Report
  calls : Nat
  deriving DecidableEq, Repr

/-- Writes a rehearsal. -/
def Rehearsal.toJson (r : Rehearsal) : Json :=
  .obj [("result", r.report.toJson),
    ("statusUpdates", .arr ((EntityStatus.records r.report).map EntityStatus.Entry.toJson)),
    ("remoteCalls", .nat r.calls)]

/-- Syncs a queue with a scripted remote system. -/
def rehearse (config : Config) (script : ScriptedRemote) (queue : List Action) :
    Except Failure Rehearsal :=
  let sync := Syncer.sync ScriptedRemote.remote config none queue .full (.start script)
  match sync.result with
  | .report r => .ok ⟨r, sync.state.shared.remote.calls.length⟩
  | .busy => .error .busy
  | .dropped => .error .busy
  | .brokeDown => .error .brokeDown

/-- Rehearses a sync of the queue in a file. -/
def rehearsalOfFiles (files : Files) (queue : String) (remote config : Option String) :
    Except Failure Rehearsal := do
  let queue ← readFile files (.items Action.record.focus) (Decode.list Action.decode) queue
  let script ←
    match remote with
    | some file => readFile files ScriptedRemote.focus ScriptedRemote.decode file
    | none => pure .empty
  let config ←
    match config with
    | some file => (Config.ofFile (files file)).mapError fun _ => Failure.badConfig
    | none => pure .default
  rehearse config script queue

/-- The value that a command prints. -/
def Command.result (files : Files) : Command → Except Failure Json
  | .diff old new => (changesOfFiles files old new).map fun ps => .arr (ps.map Patch.toJson)
  | .patch data patches => patchedFile files data patches
  | .plan queue remote config _ => (rehearsalOfFiles files queue remote config).map Rehearsal.toJson

/-- The exit code of a failure. -/
def Failure.exit : Failure → Nat
  | .brokeDown => 101
  | _ => 1

/-- The exit code for arguments that are not used as they should be. -/
def usageExit : Nat := 2

/-- Runs the program. -/
def run (args : List String) (files : Files) : Ending :=
  match Command.read? args with
  | none => ⟨usageExit, "", none⟩
  | some command =>
    match command.result files with
    | .ok j => ⟨0, j.pretty ++ "\n", none⟩
    | .error e => ⟨e.exit, "", e.message?⟩

end Outbox.Cli
