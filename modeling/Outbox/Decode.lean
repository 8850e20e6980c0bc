import Outbox.Json.Focus
import Outbox.Text.Location
import Outbox.Timestamp.Text

/-!
# Decoding JSON values

A decoder turns a JSON value into a domain value or names the first thing that does not fit.

A `Record` describes a value with named fields once, and both of its written forms follow from
that: an object, whose fields stand in any order among others that are ignored, and an array,
which has the fields' values in the order of their declaration.

* In an object the fields are checked in the order in which they stand, and the first that does
  not fit is the error; a field that occurs twice does not fit. Then the first missing field in
  the order of declaration is the error.
* In an array a field with a default may be left out at the end. Any other count of values is
  the wrong length.

The records model the readers that are derived for the written types, and `Decode.timestamp` models
the one that is not derived, `TimestampVisitor`.
-/

namespace Outbox

/-- Why a JSON value does not fit. -/
inductive DecodeError where
  | invalidType
  | invalidValue
  | invalidLength
  | missingField (name : String)
  | duplicateField (name : String)
  | unknownVariant (name : String)
  | notATimestamp
  | unreadableTimestamp (cause : Timestamp.Unreadable)
  | timestampOutOfRange (millis : Int)
  deriving DecidableEq, Repr

/-- The message of an error. A text that is no instant ends its message, and if it ends in a place
itself, that place counts as the message's own. -/
def DecodeError.message : DecodeError → String
  | .invalidType => "invalid type"
  | .invalidValue => "invalid value"
  | .invalidLength => "invalid length"
  | .missingField name => "missing field \x60" ++ name ++ "\x60"
  | .duplicateField name => "duplicate field \x60" ++ name ++ "\x60"
  | .unknownVariant name => "unknown variant \x60" ++ name ++ "\x60"
  | .notATimestamp => "invalid type, expected an RFC 3339 string or epoch milliseconds"
  | .unreadableTimestamp cause => Location.tidy cause.message
  | .timestampOutOfRange millis =>
    "timestamp out of range: " ++ String.ofList (Decimal.signed millis)

/-- A function from JSON values to values of a type. -/
abbrev Decoder (α : Type) := Json → Except DecodeError α

namespace Decode

variable {α β : Type}

/-! ## Single values -/

/-- Any value; of a repeated key the last value counts. -/
def value : Decoder Json := fun j => .ok j.normal

/-- A string. -/
def string : Decoder String
  | .str s => .ok s
  | _ => .error .invalidType

/-- A truth value. -/
def boolean : Decoder Bool
  | .bool b => .ok b
  | _ => .error .invalidType

/-- An integer between two bounds. -/
def integer (least greatest : Int) : Decoder Int
  | .num (.integer n) => if least ≤ n ∧ n ≤ greatest then .ok n else .error .invalidValue
  | _ => .error .invalidType

/-- An unsigned 64-bit integer. -/
def unsigned : Decoder UInt64 := fun j => (integer 0 maxUnsigned j).map fun n => .ofNat n.toNat

/-- A signed 64-bit integer. -/
def signed : Decoder Int64 := fun j => (integer minSigned maxSigned j).map Int64.ofInt

/-- An array of values of one type; the first that does not fit is the error. -/
def list (item : Decoder α) : Decoder (List α)
  | .arr xs => xs.mapM item
  | _ => .error .invalidType

/-- A value that may be null. -/
def nullable (item : Decoder α) : Decoder (Option α)
  | .null => .ok none
  | j => (item j).map some

/-- One of several named values: its name, or an object with the name as its only key and the
value null. -/
def variant (ofName : String → Option α) : Decoder α
  | .str s => named s
  | .obj [(name, content)] => do
    let v ← named name
    if content = .null then .ok v else .error .invalidType
  | .obj _ => .error .invalidValue
  | _ => .error .invalidType
where
  named (name : String) : Except DecodeError α :=
    match ofName name with
    | some v => .ok v
    | none => .error (.unknownVariant name)

/-- An instant: a text, an integer of milliseconds, or a double, whose fraction is cut and which
stops at the ends of the range. -/
def timestamp : Decoder Timestamp
  | .str s => (Timestamp.parse s).mapError .unreadableTimestamp
  | .num (.integer n) =>
    match Timestamp.ofMillis? n with
    | some t => .ok t
    | none => .error (.timestampOutOfRange n)
  | .num (.double d) => .ok (.clamp d.truncate)
  | _ => .error .notATimestamp

end Decode

/-! ## Records -/

/-- A description of a value with named fields. -/
structure Record (α : Type) where
  /-- The names of the fields and whether a value fits one. -/
  checks : List (String × (Json → Except DecodeError Unit))
  /-- Builds the value from fields that have been checked. -/
  ofFields : Fields Json → Except DecodeError α
  /-- Builds the value from the front of a list of values, and hands back the rest. -/
  ofItems : List Json → Except DecodeError (α × List Json)

namespace Record

variable {α β : Type}

/-- A value without fields. -/
def pure (a : α) : Record α := ⟨[], fun _ => .ok a, fun xs => .ok (a, xs)⟩

/-- A record of a function followed by a record of its argument. -/
def seq (f : Record (α → β)) (a : Unit → Record α) : Record β where
  checks := f.checks ++ (a ()).checks
  ofFields fs := do
    let g ← f.ofFields fs
    let x ← (a ()).ofFields fs
    return g x
  ofItems xs := do
    let (g, xs) ← f.ofItems xs
    let (x, xs) ← (a ()).ofItems xs
    return (g x, xs)

instance : Pure Record := ⟨pure⟩
instance : Seq Record := ⟨seq⟩

/-- A value computed from a record. -/
def map (f : α → β) (r : Record α) : Record β where
  checks := r.checks
  ofFields fs := (r.ofFields fs).map f
  ofItems xs := (r.ofItems xs).map fun (a, rest) => (f a, rest)

instance : Functor Record := ⟨map, fun a => map fun _ => a⟩

/-- A field that must be there. -/
def required (name : String) (decode : Decoder α) : Record α where
  checks := [(name, fun j => (decode j).map fun _ => ())]
  ofFields fs :=
    match Fields.get? name fs with
    | some j => decode j
    | none => .error (.missingField name)
  ofItems
    | [] => .error .invalidLength
    | j :: rest => (decode j).map fun a => (a, rest)

/-- A field with a default. -/
def withDefault (name : String) (default : α) (decode : Decoder α) : Record α where
  checks := [(name, fun j => (decode j).map fun _ => ())]
  ofFields fs :=
    match Fields.get? name fs with
    | some j => decode j
    | none => .ok default
  ofItems
    | [] => .ok (default, [])
    | j :: rest => (decode j).map fun a => (a, rest)

/-- A field that may be missing or null. -/
def optional (name : String) (decode : Decoder α) : Record (Option α) :=
  withDefault name none (Decode.nullable decode)

/-- The names of the fields, in the order of declaration. -/
def names (r : Record α) : List String := r.checks.map Prod.fst

/-- A record looks at its own fields and at all of their values. -/
def focus (r : Record α) : Focus := .fields (r.names.map fun name => (name, .whole))

/-- Checks fields in the order in which they stand; `seen` are the names passed. -/
def checkFrom (r : Record α) (seen : List String) : Fields Json → Except DecodeError Unit
  | [] => .ok ()
  | (name, j) :: rest =>
    match Fields.get? name r.checks with
    | none => checkFrom r seen rest
    | some check =>
      if seen.contains name then .error (.duplicateField name)
      else
        match check j with
        | .error e => .error e
        | .ok () => checkFrom r (name :: seen) rest

/-- Decodes the fields of an object. -/
def decodeFields (r : Record α) (fs : Fields Json) : Except DecodeError α := do
  checkFrom r [] fs
  r.ofFields fs

/-- Decodes an array of the fields' values. -/
def decodeItems (r : Record α) (xs : List Json) : Except DecodeError α := do
  let (a, rest) ← r.ofItems xs
  if rest = [] then return a else throw .invalidLength

/-- Decodes an object or an array. -/
def decode (r : Record α) : Decoder α
  | .obj fs => r.decodeFields fs
  | .arr xs => r.decodeItems xs
  | _ => .error .invalidType

end Record
end Outbox
