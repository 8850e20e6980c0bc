import Outbox.Remote.Scripted

/-!
# The recorded state of a remote system

A recording says when entities were modified and what fails. It is read from an object, or from an
array of its fields, and every field may be left out. A sync is rehearsed against the script that
it stands for.

A recording is a `RemoteSnapshot`, and `ofRecording` models its `into_mock`.
-/

namespace Outbox.ScriptedRemote

/-- The fields of one known time of modification. -/
def timeRecord : Record (Entity × Timestamp) :=
  (fun kind id time => (⟨kind, id⟩, time)) <$> Record.required "entityType" EntityKind.decode
    <*> Record.required "entityId" Decode.string
    <*> Record.required "modifiedAt" Decode.timestamp

/-- The script of a recording. Of two times of one entity the later row counts. -/
def ofRecording (times : List (Entity × Timestamp))
    (topics subscriptions posts lookups : List String) : ScriptedRemote :=
  { times.foldl (fun s row => s.modified row.1 row.2) empty with
    refusedTopics := topics
    refusedSubscriptions := subscriptions
    refusedPosts := posts
    lostLookups := lookups }

/-- The fields of a recording. -/
def record : Record ScriptedRemote :=
  ofRecording <$> Record.withDefault "lastModified" [] (Decode.list timeRecord.decode)
    <*> Record.withDefault "failingTopics" [] (Decode.list Decode.string)
    <*> Record.withDefault "failingSubscriptions" [] (Decode.list Decode.string)
    <*> Record.withDefault "failingPosts" [] (Decode.list Decode.string)
    <*> Record.withDefault "failingLookups" [] (Decode.list Decode.string)

/-- Reads a recording. -/
def decode : Decoder ScriptedRemote := record.decode

/-- The parts of a recording that are looked at. -/
def focus : Focus := record.focus.refine "lastModified" (.items timeRecord.focus)

end Outbox.ScriptedRemote
