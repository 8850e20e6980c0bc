import Outbox.Text.Decimal
import Outbox.Word

/-!
# Places in a text

A `Location` is a line and a column. A message about a place ends in it, as in
`no digit at line 3 column 7`, and a message about no place has line 0 and is written without one.

`Location.tidy` takes the place that a message ends in and writes it again: leading zeros go, and
a place in line 0 goes altogether. What merely looks like a place, because a number is missing or
has more than 64 bits, stays as it is.
-/

namespace Outbox

/-- A line and a column. -/
structure Location where
  line : Nat
  column : Nat
  deriving DecidableEq, Repr

namespace Location

open Outbox.Decimal

/-- What stands in front of the line. -/
def lineMark : List Char := " at line ".toList

/-- What stands between the line and the column. -/
def columnMark : List Char := " column ".toList

/-- What a message about a place ends in. -/
def text (place : Location) : List Char :=
  if place.line = 0 then []
  else lineMark ++ digits place.line ++ columnMark ++ digits place.column

/-- Takes the digits off the end of a text and reads them as an unsigned 64-bit integer. -/
def numberAtEnd? (cs : List Char) : Option (List Char × Nat) := do
  let n ← readNat? (cs.reverse.takeWhile isDigit).reverse
  if (n : Int) ≤ maxUnsigned then some ((cs.reverse.dropWhile isDigit).reverse, n) else none

/-- Takes the place off the end of a message. -/
def atEnd? (cs : List Char) : Option (List Char × Location) := do
  let (cs, column) ← numberAtEnd? cs
  let cs ← columnMark.isSuffixOf? cs
  let (cs, line) ← numberAtEnd? cs
  let cs ← lineMark.isSuffixOf? cs
  return (cs, ⟨line, column⟩)

/-- Writes the place that a message ends in again; any other message stays as it is. -/
def tidy (message : String) : String :=
  match atEnd? message.toList with
  | some (rest, place) => String.ofList (rest ++ place.text)
  | none => message

end Location
end Outbox
