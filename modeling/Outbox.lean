import Outbox.Action.Basic
import Outbox.Action.Kind
import Outbox.Action.Payload
import Outbox.Calendar
import Outbox.Cli.Arguments
import Outbox.Cli.Program
import Outbox.Config
import Outbox.Config.File
import Outbox.Conflict.Basic
import Outbox.Conflict.Settle
import Outbox.Decode
import Outbox.Double.Basic
import Outbox.Double.Shortest
import Outbox.Duration
import Outbox.EntityStatus
import Outbox.Json.Basic
import Outbox.Json.Draft
import Outbox.Json.Focus
import Outbox.Json.Numeral
import Outbox.Json.Printer
import Outbox.Json.Reader
import Outbox.Json.Token
import Outbox.Main
import Outbox.Proofs.Action.Codec
import Outbox.Proofs.Action.Payload
import Outbox.Proofs.Action.Same
import Outbox.Proofs.Calendar
import Outbox.Proofs.Cli.Files
import Outbox.Proofs.Cli.Patching
import Outbox.Proofs.Cli.Rehearsal
import Outbox.Proofs.Config
import Outbox.Proofs.Conflict.Side
import Outbox.Proofs.Decode
import Outbox.Proofs.Json.Normal
import Outbox.Proofs.Json.Same
import Outbox.Proofs.Remote.Limit
import Outbox.Proofs.Remote.Search
import Outbox.Proofs.Report
import Outbox.Proofs.Report.Append
import Outbox.Proofs.Settlement
import Outbox.Proofs.Settlement.Atomic
import Outbox.Proofs.SingleFlight
import Outbox.Proofs.Snapshot.Again
import Outbox.Proofs.Snapshot.Edits
import Outbox.Proofs.Snapshot.Effect
import Outbox.Proofs.Snapshot.Inverse
import Outbox.Proofs.Snapshot.Minimal
import Outbox.Proofs.Snapshot.Onto
import Outbox.Proofs.Snapshot.Patch
import Outbox.Proofs.Snapshot.Reorder
import Outbox.Proofs.Snapshot.RoundTrip
import Outbox.Proofs.Sync.Alone
import Outbox.Proofs.Sync.Apart
import Outbox.Proofs.Sync.Breakdown
import Outbox.Proofs.Sync.Conservation
import Outbox.Proofs.Sync.Effects
import Outbox.Proofs.Sync.Finding
import Outbox.Proofs.Sync.FirstCall
import Outbox.Proofs.Sync.Flight
import Outbox.Proofs.Sync.Hearing
import Outbox.Proofs.Sync.Ledger
import Outbox.Proofs.Sync.Orderly
import Outbox.Proofs.Sync.Outage
import Outbox.Proofs.Sync.Places
import Outbox.Proofs.Sync.Printed
import Outbox.Proofs.Sync.Progress
import Outbox.Proofs.Sync.Prompt
import Outbox.Proofs.Sync.Record
import Outbox.Proofs.Sync.Request
import Outbox.Proofs.Sync.Return
import Outbox.Proofs.Sync.Schedule
import Outbox.Proofs.Sync.Script
import Outbox.Proofs.Sync.Served
import Outbox.Proofs.Sync.Statuses
import Outbox.Proofs.Sync.Step
import Outbox.Proofs.Sync.Struck
import Outbox.Proofs.Sync.Timeline
import Outbox.Proofs.Text.Decimal
import Outbox.Proofs.Timestamp.Agreement
import Outbox.Proofs.Timestamp.Notations
import Outbox.Proofs.Timestamp.Readers
import Outbox.Proofs.Timestamp.RoundTrip
import Outbox.Proofs.Topic
import Outbox.Proofs.Topic.Partition
import Outbox.Remote.Ask
import Outbox.Remote.Basic
import Outbox.Remote.Operation
import Outbox.Remote.Recorded
import Outbox.Remote.Scripted
import Outbox.Report
import Outbox.Settlement
import Outbox.Snapshot.Changes
import Outbox.Snapshot.Patch
import Outbox.Snapshot.Replay
import Outbox.Sync.Flight
import Outbox.Sync.Progress
import Outbox.Sync.Run
import Outbox.Sync.Task
import Outbox.Sync.Timeline
import Outbox.Syncer
import Outbox.Text.Blank
import Outbox.Text.Decimal
import Outbox.Text.Location
import Outbox.Timestamp.Basic
import Outbox.Timestamp.Text
import Outbox.Toml.Document
import Outbox.Toml.Scalar
import Outbox.Topic
import Outbox.Turn
import Outbox.Word
