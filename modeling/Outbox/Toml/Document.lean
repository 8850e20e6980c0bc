import Outbox.Toml.Scalar

/-!
# TOML documents

A document is a list of lines: assignments of a value to a key, headers of sections, comments and
empty lines. `read?` gives every assignment with its full path.

A path has one value or none, and no value has others below it. A table is opened by a header or
by keys with points, not by both, and only the headers of other tables add to it later.

Keys are bare or between quotation marks or apostrophes and may be joined by points. Values are
scalars and arrays, which may go over several lines. A path has fewer than `nestingLimit` keys,
and arrays are nested less deep than that.
-/

namespace Outbox.Toml

/-- The keys from the top of the document to a value. -/
abbrev Path := List String

/-- What a document has said so far. -/
structure Document where
  values : List (Path × Value)
  /-- The tables that headers opened. -/
  sections : List Path
  /-- The tables that keys with points opened. -/
  dotted : List Path
  deriving DecidableEq, Repr

/-- Blanks and tabs are dropped. -/
def skipBlanks (cs : List Char) : List Char := cs.dropWhile fun c => c == ' ' || c == '\t'

/-- A comment is dropped. -/
def skipComment : List Char → List Char
  | '#' :: rest => rest.dropWhile isPrintable
  | cs => cs

/-- Up to the end of a line nothing may come but a comment; and the rest after it. -/
def endLine? (cs : List Char) : Option (List Char) :=
  match skipComment (skipBlanks cs) with
  | [] => some []
  | '\n' :: rest => some rest
  | '\r' :: '\n' :: rest => some rest
  | _ => none

/-- Paths are shorter and arrays are less deep. -/
def nestingLimit : Nat := 80

/-! ## Keys -/

/-- A character of a bare key. -/
def isBare (c : Char) : Bool := c.isAlphanum || c == '_' || c == '-'

/-- One key, and the rest. -/
def scanKey : List Char → Option (String × List Char)
  | '"' :: rest => (scanBasic rest).map fun r => (String.ofList r.1, r.2)
  | '\'' :: rest => (scanLiteral rest).map fun r => (String.ofList r.1, r.2)
  | cs =>
    let key := cs.takeWhile isBare
    if key.isEmpty then none else some (String.ofList key, cs.dropWhile isBare)

/-- At most so many keys joined by points, and the rest. -/
def scanKeys : Nat → List Char → Option (Path × List Char)
  | 0, _ => none
  | room + 1, cs => do
    let (key, rest) ← scanKey (skipBlanks cs)
    match skipBlanks rest with
    | '.' :: rest =>
      let (path, rest) ← scanKeys room rest
      return (key :: path, rest)
    | rest => return ([key], rest)

/-- A path, and the rest. -/
def scanPath (cs : List Char) : Option (Path × List Char) := scanKeys (nestingLimit - 1) cs

/-! ## Arrays -/

/-- What may come next in an array. -/
inductive ArrayPlace where
  | item
  | comma
  deriving DecidableEq, Repr

/-- The rest after the end of the outermost of `depth` open arrays. Each round takes at least one
character. -/
def scanArray : Nat → Nat → ArrayPlace → List Char → Option (List Char)
  | 0, _, _, _ => none
  | fuel + 1, depth, place, cs =>
    match skipBlanks cs, place with
    | '\n' :: rest, place => scanArray fuel depth place rest
    | '\r' :: '\n' :: rest, place => scanArray fuel depth place rest
    | '#' :: rest, place => scanArray fuel depth place (rest.dropWhile isPrintable)
    | ']' :: rest, _ => if depth ≤ 1 then some rest else scanArray fuel (depth - 1) .comma rest
    | ',' :: rest, .comma => scanArray fuel depth .item rest
    | '[' :: rest, .item =>
      if depth + 1 < nestingLimit then scanArray fuel (depth + 1) .item rest else none
    | rest, .item =>
      match scanScalar rest with
      | some (_, rest) => scanArray fuel depth .comma rest
      | none => none
    | _, .comma => none

/-- A value, and the rest. -/
def scanValue : List Char → Option (Value × List Char)
  | '[' :: rest => (scanArray (rest.length + 1) 1 .item rest).map fun rest => (.array, rest)
  | cs => scanScalar cs

/-! ## Lines -/

namespace Document

/-- Nothing has been said. -/
def empty : Document := ⟨[], [], []⟩

/-- One of the paths leads to the other or beyond. -/
def overlaps (p q : Path) : Bool := p.isPrefixOf q || q.isPrefixOf p

/-- A header has opened a table or one inside it. -/
def isSection (d : Document) (path : Path) : Bool := d.sections.any path.isPrefixOf

/-- The tables between a section and the last of some keys, outermost first. -/
def tablesBetween (current : Path) : Path → List Path
  | key :: next :: rest =>
    (current ++ [key]) :: tablesBetween (current ++ [key]) (next :: rest)
  | _ => []

/-- Gives a value to a path in a section, unless the path is taken or leads through tables of
headers. -/
def assign? (d : Document) (current keys : Path) (value : Value) : Option Document :=
  let path := current ++ keys
  let tables := tablesBetween current keys
  if d.values.any (fun entry => overlaps entry.1 path) || d.isSection path ||
      tables.any d.sections.contains || tables.getLast?.any d.isSection then none
  else
    let opened := tables.filter fun table => !d.isSection table
    some { d with values := d.values ++ [(path, value)], dotted := d.dotted ++ opened }

/-- Opens a section, unless it is open or its path is taken. -/
def openSection? (d : Document) (path : Path) : Option Document :=
  if d.sections.contains path || d.dotted.contains path ||
      d.values.any (fun entry => entry.1.isPrefixOf path) then none
  else some { d with sections := d.sections ++ [path] }

/-- Reads lines in a section. Each line takes at least one character. -/
def readLines? : Nat → Path → Document → List Char → Option Document
  | 0, _, _, _ => none
  | fuel + 1, current, d, cs =>
    match skipBlanks cs with
    | [] => some d
    | '[' :: rest => do
      let (path, rest) ← scanPath rest
      match rest with
      | ']' :: rest =>
        let rest ← endLine? rest
        let d ← d.openSection? path
        readLines? fuel path d rest
      | _ => none
    | c :: rest =>
      if c = '#' ∨ c = '\n' ∨ c = '\r' then do
        let rest ← endLine? (c :: rest)
        readLines? fuel current d rest
      else do
        let (path, rest) ← scanPath (c :: rest)
        match rest with
        | '=' :: rest =>
          let (value, rest) ← scanValue (skipBlanks rest)
          let rest ← endLine? rest
          let d ← d.assign? current path value
          readLines? fuel current d rest
        | _ => none

end Document

/-- A byte order mark at the beginning is dropped. -/
def dropMark : List Char → List Char
  | c :: rest => if c.toNat = 0xFEFF then rest else c :: rest
  | [] => []

/-- Reads a document. -/
def read? (text : String) : Option Document :=
  let cs := dropMark text.toList
  Document.readLines? (cs.length + 1) [] .empty cs

end Outbox.Toml
