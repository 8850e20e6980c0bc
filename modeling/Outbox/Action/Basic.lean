import Outbox.Action.Payload

/-!
# Queued actions

An `Action` is something a user did while offline and that the remote system does not know yet.
It keeps the id that the client gave it for good.

`Action` models `OfflineAction` and `LocalId` the type of that name: `queued` is an action made by
`new`, `with_local_id` and `with_created_at`, and `topic?` is `topic_id`.
-/

namespace Outbox

/-- The id that a client gives to an action. -/
structure LocalId where
  text : String
  deriving DecidableEq, Repr

namespace LocalId

/-- What generated ids begin with. -/
def generatedStart : String := "local_"

/-- The number of hexadecimal digits of a generated id. -/
def generatedDigits : Nat := 32

/-- The last `count` hexadecimal digits of a number. -/
def hexDigits : Nat → Nat → List Char
  | 0, _ => []
  | count + 1, n => hexDigits count (n / 16) ++ [Nat.digitChar (n % 16)]

/-- A fresh id from random bits: a random identifier of version 4. -/
def ofRandom (bits : Nat) : LocalId :=
  let high := (bits >>> 80) % 0x1000000000000
  let middle := 0x4000 + (bits >>> 64) % 0x1000
  let low := 0x8000000000000000 + bits % 0x4000000000000000
  let number := (((high <<< 16) + middle) <<< 64) + low
  ⟨generatedStart ++ String.ofList (hexDigits generatedDigits number)⟩

/-- Whether an id has the form of a generated one. -/
def isGenerated (id : LocalId) : Bool :=
  let digits := id.text.toList.drop generatedStart.length
  id.text.toList.take generatedStart.length == generatedStart.toList &&
    digits.length == generatedDigits &&
    digits.all fun c => ('0' ≤ c && c ≤ '9') || ('a' ≤ c && c ≤ 'f')

/-- Reads an id. -/
def decode : Decoder LocalId := fun j => (Decode.string j).map LocalId.mk

/-- Writes an id. -/
def toJson (id : LocalId) : Json := .str id.text

end LocalId

/-- An action in the queue. -/
structure Action where
  /-- The row in the client's store, once it has one. -/
  id : Option Int64
  localId : LocalId
  userPubkey : String
  kind : ActionKind
  payload : Payload
  /-- When the action was queued. -/
  createdAt : Timestamp
  isSynced : Bool
  deriving DecidableEq, Repr

namespace Action

/-- A new action that no store has seen. -/
def queued (userPubkey : String) (kind : ActionKind) (payload : Payload) (localId : LocalId)
    (createdAt : Timestamp) : Action :=
  ⟨none, localId, userPubkey, kind, payload, createdAt, false⟩

/-- The topic that an action belongs to; an empty id counts as none. -/
def topic? (a : Action) : Option String := nonEmpty? a.payload.topicId

/-- The fields of an action. -/
def record : Record Action :=
  Action.mk <$> Record.optional "id" Decode.signed
    <*> Record.required "localId" LocalId.decode
    <*> Record.required "userPubkey" Decode.string
    <*> Record.required "actionType" ActionKind.decode
    <*> Record.withDefault "actionData" Payload.empty Payload.decode
    <*> Record.required "createdAt" Decode.timestamp
    <*> Record.withDefault "isSynced" false Decode.boolean

/-- Reads an action. -/
def decode : Decoder Action := record.decode

/-- Writes an instant. -/
def timestampJson (t : Timestamp) : Json := .str t.text

/-- Writes an action. -/
def toJson (a : Action) : Json :=
  .obj (a.id.toList.map (fun id => ("id", Json.int id.toInt)) ++
    [("localId", a.localId.toJson), ("userPubkey", .str a.userPubkey),
      ("actionType", a.kind.toJson), ("actionData", a.payload.toJson),
      ("createdAt", timestampJson a.createdAt), ("isSynced", .bool a.isSynced)])

end Action
end Outbox
