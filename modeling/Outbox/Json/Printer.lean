import Outbox.Double.Shortest
import Outbox.Json.Basic
import Outbox.Text.Decimal

/-!
# Writing JSON texts

`compact` writes a value without white space and `pretty` with one item or field a line, two
blanks deeper for each level, where empty arrays and objects stay `[]` and `\x7b\x7d`.

A string escapes the quotation mark, the backslash and the characters below U+0020, nothing
else. Doubles are written with the fewest digits that read back.
-/

namespace Outbox.Json

/-- Doubles are positional from `0.00001` up to but not including `1e+16`. -/
def numberLayout : Double.Layout := ⟨-5, 16⟩

/-- The text of a number. -/
def numberText : Number → String
  | .integer n => String.ofList (Decimal.signed n)
  | .double d => d.render numberLayout

/-- A lower-case hexadecimal digit. -/
def hexDigit (n : Nat) : Char := Nat.digitChar n

/-- A character inside a string. -/
def escaped (c : Char) : List Char :=
  match c with
  | '"' => ['\\', '"']
  | '\\' => ['\\', '\\']
  | '\n' => ['\\', 'n']
  | '\r' => ['\\', 'r']
  | '\t' => ['\\', 't']
  | c =>
    if c.toNat = 8 then ['\\', 'b']
    else if c.toNat = 12 then ['\\', 'f']
    else if c.toNat < 32 then
      ['\\', 'u', '0', '0', hexDigit (c.toNat / 16), hexDigit (c.toNat % 16)]
    else [c]

/-- A string between quotation marks. -/
def quoted (s : String) : String :=
  String.ofList ('"' :: s.toList.flatMap escaped ++ ['"'])

/-- Texts with a separator between them. -/
def separated (separator : String) : List String → String
  | [] => ""
  | [s] => s
  | s :: rest => s ++ separator ++ separated separator rest

/-! ## Without white space -/

mutual

/-- The text of a value without white space. -/
def compact : Json → String
  | .null => "null"
  | .bool true => "true"
  | .bool false => "false"
  | .num n => numberText n
  | .str s => quoted s
  | .arr xs => "[" ++ separated "," (compactItems xs) ++ "]"
  | .obj fs => "\x7b" ++ separated "," (compactFields fs) ++ "\x7d"

/-- The texts of the items. -/
def compactItems : List Json → List String
  | [] => []
  | x :: xs => compact x :: compactItems xs

/-- The texts of the fields. -/
def compactFields : List (String × Json) → List String
  | [] => []
  | (k, x) :: fs => (quoted k ++ ":" ++ compact x) :: compactFields fs

end

/-! ## One item or field a line -/

/-- The beginning of a line at a depth. -/
def lineStart (depth : Nat) : String := String.ofList ('\n' :: List.replicate (2 * depth) ' ')

/-- Lines at a depth between two brackets, or the brackets alone. -/
def block (opening closing : String) (depth : Nat) (lines : List String) : String :=
  if lines.isEmpty then opening ++ closing
  else
    opening ++ lineStart (depth + 1) ++ separated ("," ++ lineStart (depth + 1)) lines ++
      lineStart depth ++ closing

mutual

/-- The text of a value that starts at a depth. -/
def prettyAt (depth : Nat) : Json → String
  | .arr xs => block "[" "]" depth (prettyItems (depth + 1) xs)
  | .obj fs => block "\x7b" "\x7d" depth (prettyFields (depth + 1) fs)
  | .null => "null"
  | .bool true => "true"
  | .bool false => "false"
  | .num n => numberText n
  | .str s => quoted s

/-- The texts of the items. -/
def prettyItems (depth : Nat) : List Json → List String
  | [] => []
  | x :: xs => prettyAt depth x :: prettyItems depth xs

/-- The texts of the fields. -/
def prettyFields (depth : Nat) : List (String × Json) → List String
  | [] => []
  | (k, x) :: fs => (quoted k ++ ": " ++ prettyAt depth x) :: prettyFields depth fs

end

/-- The text of a value over several lines. -/
def pretty (value : Json) : String := prettyAt 0 value

end Outbox.Json
