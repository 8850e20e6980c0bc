import Outbox.Snapshot.Patch

/-!
# Replaying patches

A patch walks down its path to the object that holds the last key, and puts the value there or
takes the key out. On its way it makes an object where a key is missing or has an empty value
(null, false, a zero, the empty string); any other value that is no object blocks the path, and
then the patch changes nothing.

A path is blocked only by a value that was there before, so a skipped patch leaves no trace.

`replay` models `apply_diff_patches`, `changeAt` its `walk_to_parent` and `givesWay` its
`is_empty_scalar`.
-/

namespace Outbox.Snapshot

/-- The pieces between the points of a text, at least one. -/
def splitPoints : List Char → List (List Char)
  | [] => [[]]
  | c :: rest =>
    if c = '.' then [] :: splitPoints rest
    else
      match splitPoints rest with
      | piece :: pieces => (c :: piece) :: pieces
      | [] => [[c]]

/-- The keys of a path, from the top level down. -/
def segments (path : String) : List String := (splitPoints path.toList).map String.ofList

/-- The values that give way to an object: null, false, a zero and the empty string. -/
def givesWay : Json → Bool
  | .null => true
  | .bool b => !b
  | .num n => n.isZero
  | .str s => s == ""
  | .arr _ => false
  | .obj _ => false

/-- The fields below a key: those of an object, none where an object will be made, and nothing
where the path is blocked. -/
def fieldsBelow (key : String) (fs : Fields Json) : Option (Fields Json) :=
  match Fields.get? key fs with
  | none => some []
  | some (.obj inner) => some inner
  | some j => if givesWay j then some [] else none

/-- Changes the fields at the end of a path, unless it is blocked. -/
def changeAt (change : Fields Json → Fields Json) : List String → Fields Json → Option (Fields Json)
  | [], fs => some (change fs)
  | key :: path, fs =>
    match fieldsBelow key fs with
    | none => none
    | some inner =>
      match changeAt change path inner with
      | none => none
      | some inner => some (Fields.put key (.obj inner) fs)

/-- What a patch does to the object that holds its last key. -/
def lastChange (key : String) (value : Option Json) (fs : Fields Json) : Fields Json :=
  match value with
  | some j => Fields.put key j fs
  | none => Fields.erase key fs

/-- Replays one patch on the fields of an object. -/
def replayOne (fs : Fields Json) (p : Patch) : Fields Json :=
  let keys := segments p.path
  (changeAt (lastChange (keys.getLastD "") p.value?) keys.dropLast fs).getD fs

/-- Replays patches one after the other. A snapshot that is no object counts as empty. -/
def replay (data : Json) (patches : List Patch) : Json :=
  .obj (patches.foldl replayOne data.fields)

end Outbox.Snapshot
