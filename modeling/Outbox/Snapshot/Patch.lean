import Outbox.Decode

/-!
# Patches

A patch is one change to a JSON object: a key is added, its value is changed, or it is deleted.
Its path is a text of keys with points between them.

In its written form a patch names its kind in the field `type`. An array has the kind first and
then the values of the fields.

`Patch` models `DiffPatch`.
-/

namespace Outbox

/-- One change to a snapshot. -/
inductive Patch where
  | add (path : String) (value : Json)
  | modify (path : String) (value : Json) (oldValue : Option Json)
  | delete (path : String) (oldValue : Option Json)
  deriving DecidableEq, Repr

namespace Patch

/-- The path that a patch touches. -/
def path : Patch → String
  | .add path _ => path
  | .modify path _ _ => path
  | .delete path _ => path

/-- The value that a patch writes. -/
def value? : Patch → Option Json
  | .add _ value => some value
  | .modify _ value _ => some value
  | .delete _ _ => none

/-- The kinds of patches. -/
inductive Kind where
  | add
  | modify
  | delete
  deriving DecidableEq, Repr

/-- The kind of a written name. -/
def Kind.ofName? : String → Option Kind
  | "add" => some .add
  | "modify" => some .modify
  | "delete" => some .delete
  | _ => none

/-- The fields of a patch of each kind. -/
def record : Kind → Record Patch
  | .add =>
    Patch.add <$> Record.required "path" Decode.string <*> Record.required "value" Decode.value
  | .modify =>
    Patch.modify <$> Record.required "path" Decode.string
      <*> Record.required "value" Decode.value
      <*> Record.optional "oldValue" Decode.value
  | .delete =>
    Patch.delete <$> Record.required "path" Decode.string
      <*> Record.optional "oldValue" Decode.value

/-- Reads the kind, which is a string and nothing else. -/
def decodeKind : Decoder Kind
  | .str s =>
    match Kind.ofName? s with
    | some k => .ok k
    | none => .error (.unknownVariant s)
  | _ => .error .invalidType

/-- The field that names the kind. -/
def kindName : String := "type"

/-- Reads a patch. The kind comes first, wherever it stands. -/
def decode : Decoder Patch
  | .obj fs =>
    match fs.filter fun f => f.1 = kindName with
    | [] => .error (.missingField kindName)
    | f :: more => do
      let kind ← decodeKind f.2
      if more ≠ [] then throw (.duplicateField kindName)
      (record kind).decodeFields (Fields.erase kindName fs)
  | .arr [] => .error (.missingField kindName)
  | .arr (j :: rest) => do
    let kind ← decodeKind j
    (record kind).decodeItems rest
  | _ => .error .invalidType

/-- The previous value, if it is known. -/
def oldField (oldValue : Option Json) : List (String × Json) :=
  oldValue.toList.map fun j => ("oldValue", j)

/-- Writes a patch. -/
def toJson : Patch → Json
  | .add path value => .obj [(kindName, .str "add"), ("path", .str path), ("value", value)]
  | .modify path value oldValue =>
    .obj ([(kindName, .str "modify"), ("path", .str path), ("value", value)] ++ oldField oldValue)
  | .delete path oldValue =>
    .obj ([(kindName, .str "delete"), ("path", .str path)] ++ oldField oldValue)

end Patch
end Outbox
