import Outbox.Action.Kind

/-!
# Payloads of actions

A payload has nine fields that mean something to a sync, none of them mandatory, and any number
of further fields that are kept as they are.

`decode` accepts objects only. `toJson` writes the known fields that are there, in the order of
declaration, and then the further ones in their own order.

`Payload` models `ActionData`: `newPost`, `ofPost` and `ofTopic` are its `post`, `for_post` and
`for_topic`, `about` and `versioned` are `with_entity` and `with_version`, `mandatory` is `require`,
and `toJson` and `ofJson` are `to_value` and `from_value`. `PayloadError` models `ActionDataError`.
-/

namespace Outbox

/-- What an action carries. -/
structure Payload where
  topicId : Option String
  postId : Option String
  userId : Option String
  content : Option String
  replyTo : Option String
  quotedPost : Option String
  entityType : Option String
  entityId : Option String
  version : Option UInt64
  /-- Fields that a sync does not look at. -/
  extra : Fields Json
  deriving DecidableEq, Repr

/-- A string that is there and not empty. -/
def nonEmpty? (text : Option String) : Option String := text.filter (· ≠ "")

theorem nonEmpty?_eq_some_iff {text : Option String} {s : String} :
    nonEmpty? text = some s ↔ text = some s ∧ s ≠ "" := by
  unfold nonEmpty?
  rw [Option.filter_eq_some_iff, decide_eq_true_iff]

theorem nonEmpty?_eq_none_iff {text : Option String} :
    nonEmpty? text = none ↔ ∀ s ∈ text, s = "" := by
  simp only [Option.eq_none_iff_forall_ne_some, ne_eq, nonEmpty?_eq_some_iff, not_and]
  exact forall_congr' fun s => imp_congr_right fun _ => Decidable.not_not

/-- Why a payload does not serve its action. -/
inductive PayloadError where
  /-- The kind of action needs a field that is absent or empty. -/
  | missingField (kind : ActionKind) (field : String)
  /-- A JSON value is no payload. -/
  | malformed (cause : DecodeError)
  deriving DecidableEq, Repr

/-- The message of an error. -/
def PayloadError.message : PayloadError → String
  | .missingField kind field =>
    "missing required field \x60" ++ field ++ "\x60 for " ++ kind.name
  | .malformed cause => "malformed action data: " ++ cause.message

namespace Payload

/-- The payload without any field. -/
def empty : Payload := ⟨none, none, none, none, none, none, none, none, none, []⟩

instance : Inhabited Payload := ⟨empty⟩

/-- The payload of a post in a topic. -/
def newPost (content topicId : String) : Payload :=
  { empty with content := some content, topicId := some topicId }

/-- A payload that refers to a post. -/
def ofPost (postId : String) : Payload := { empty with postId := some postId }

/-- A payload that refers to a topic. -/
def ofTopic (topicId : String) : Payload := { empty with topicId := some topicId }

/-- Names the entity whose modification makes a conflict. -/
def about (p : Payload) (entityType entityId : String) : Payload :=
  { p with entityType := some entityType, entityId := some entityId }

/-- Sets the version. -/
def versioned (p : Payload) (version : UInt64) : Payload := { p with version := some version }

/-- A field that a kind of action needs; an empty one counts as absent. -/
def mandatory (value : Option String) (kind : ActionKind) (field : String) :
    Except PayloadError String :=
  match nonEmpty? value with
  | some s => .ok s
  | none => .error (.missingField kind field)

/-! ## Written form -/

/-- The known fields; the further ones are added to what it builds. -/
def known : Record (Fields Json → Payload) :=
  Payload.mk <$> Record.optional "topicId" Decode.string
    <*> Record.optional "postId" Decode.string
    <*> Record.optional "userId" Decode.string
    <*> Record.optional "content" Decode.string
    <*> Record.optional "replyTo" Decode.string
    <*> Record.optional "quotedPost" Decode.string
    <*> Record.optional "entityType" Decode.string
    <*> Record.optional "entityId" Decode.string
    <*> Record.optional "version" Decode.unsigned

/-- The names of the known fields. -/
def knownNames : List String :=
  ["topicId", "postId", "userId", "content", "replyTo", "quotedPost", "entityType", "entityId",
    "version"]

/-- These are the names that the known fields are read by. -/
example : known.names = knownNames := rfl

/-- Reads a payload. -/
def decode : Decoder Payload
  | .obj fs => do
    let build ← known.decodeFields fs
    let extra := (Json.normalFields fs).filter fun f => !knownNames.contains f.1
    return build (Fields.ofList extra)
  | _ => .error .invalidType

/-- A field with a string, if it is there. -/
def stringField (name : String) (value : Option String) : List (String × Json) :=
  value.toList.map fun s => (name, .str s)

/-- The known fields that are there. -/
def knownFields (p : Payload) : List (String × Json) :=
  stringField "topicId" p.topicId ++ stringField "postId" p.postId ++
    stringField "userId" p.userId ++ stringField "content" p.content ++
    stringField "replyTo" p.replyTo ++ stringField "quotedPost" p.quotedPost ++
    stringField "entityType" p.entityType ++ stringField "entityId" p.entityId ++
    p.version.toList.map fun v => ("version", Json.nat v.toNat)

/-- Writes a payload. A further field under a known name takes the place of the known one. -/
def toJson (p : Payload) : Json := .obj (Fields.ofList (p.knownFields ++ p.extra))

/-- Reads a payload, for use in an action. -/
def ofJson (j : Json) : Except PayloadError Payload := (decode j).mapError .malformed

end Payload
end Outbox
