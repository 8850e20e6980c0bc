import Outbox.Json.Token

/-!
# Reading JSON texts

`Draft.read?` takes the tokens of a text one by one and keeps the containers that are still open.
A text spells one value with nothing but white space around it.

`readFor?` takes over the parts of it that a focus looks at, where containers are nested at most
`depthLimit` deep. `read?` takes over all of it and keeps repeated keys, and `readNormal?` lets
the last value of a repeated key win.
-/

namespace Outbox.Json

/-- A container that is still open, with what it has so far, last first. -/
inductive Frame where
  | items (done : List Draft)
  | fields (done : List (Option String × Draft)) (key : Option String)
  deriving Repr

/-- What may come next. -/
inductive Expecting where
  /-- A value. -/
  | value
  /-- The first item of an array, or its end. -/
  | firstItem
  /-- The first key of an object, or its end. -/
  | firstKey
  /-- The next key of an object. -/
  | key (done : List (Option String × Draft))
  /-- The colon after a key. -/
  | colon (done : List (Option String × Draft)) (key : Option String)
  /-- A comma or the end of the innermost open container, or the end of the text. -/
  | next (value : Draft)
  deriving Repr

/-- A reader in the midst of a text: the open containers, innermost first. -/
structure Reader where
  opened : List Frame
  expecting : Expecting
  deriving Repr

namespace Reader

/-- A reader takes a token. `firstItem` and `firstKey` stand for a container that is open but
not yet among the frames. -/
def step (r : Reader) (t : Token) : Option Reader :=
  match r.expecting, t with
  | .value, .scalar v => some ⟨r.opened, .next v⟩
  | .value, .openArray => some ⟨r.opened, .firstItem⟩
  | .value, .openObject => some ⟨r.opened, .firstKey⟩
  | .firstItem, .closeArray => some ⟨r.opened, .next (.arr [])⟩
  | .firstItem, .scalar v => some ⟨.items [] :: r.opened, .next v⟩
  | .firstItem, .openArray => some ⟨.items [] :: r.opened, .firstItem⟩
  | .firstItem, .openObject => some ⟨.items [] :: r.opened, .firstKey⟩
  | .firstKey, .closeObject => some ⟨r.opened, .next (.obj [])⟩
  | .firstKey, .scalar (.str k) => some ⟨r.opened, .colon [] k⟩
  | .key done, .scalar (.str k) => some ⟨r.opened, .colon done k⟩
  | .colon done k, .colon => some ⟨.fields done k :: r.opened, .value⟩
  | .next v, .comma =>
    match r.opened with
    | .items done :: rest => some ⟨.items (v :: done) :: rest, .value⟩
    | .fields done k :: rest => some ⟨rest, .key ((k, v) :: done)⟩
    | [] => none
  | .next v, .closeArray =>
    match r.opened with
    | .items done :: rest => some ⟨rest, .next (.arr (v :: done).reverse)⟩
    | _ => none
  | .next v, .closeObject =>
    match r.opened with
    | .fields done k :: rest => some ⟨rest, .next (.obj ((k, v) :: done).reverse)⟩
    | _ => none
  | _, _ => none

/-- A reader at the beginning of a text. -/
def start : Reader := ⟨[], .value⟩

/-- What the text spells, if it may end here. -/
def result? (r : Reader) : Option Draft :=
  match r.opened, r.expecting with
  | [], .next v => some v
  | _, _ => none

end Reader

/-- What a text spells. -/
def Draft.read? (text : String) : Option Draft := do
  let ts ← tokens? text.toList
  let r ← ts.foldlM Reader.step Reader.start
  r.result?

/-- The deepest nesting of arrays and objects. -/
def depthLimit : Nat := 127

/-- The parts of a text's value that a focus looks at, repeated keys included. -/
def readFor? (focus : Focus) (text : String) : Option Json :=
  (Draft.read? text).bind (Draft.keep? focus depthLimit)

/-- The value of a text, repeated keys included. -/
def read? (text : String) : Option Json := readFor? .whole text

/-- The value of a text, in which the last value of a repeated key wins. -/
def readNormal? (text : String) : Option Json := (read? text).map normal

end Outbox.Json
