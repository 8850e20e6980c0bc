import Outbox.Calendar
import Outbox.Text.Blank
import Outbox.Text.Decimal
import Outbox.Timestamp.Basic

/-!
# The text of an instant

Instants are written as `2024-01-01T00:00:00.000Z`. Years outside 0 to 9999 get a sign and at
least four digits, and instants outside the years -262143 to 262142 are written as their
milliseconds.

Three notations are read, after white space at both ends is dropped:

* `readInstant?`: date, time and offset, with four digits for the year;
* `readDate?`: a date, which stands for its first instant in UTC. Its year may have a sign, and
  white space is allowed in front of each of its three numbers;
* `readMillis?`: a signed 64-bit decimal.

`parse` models `parse` of `Timestamp`, and `text` its `to_rfc3339`.
-/

namespace Outbox.Timestamp

open Outbox.Calendar Outbox.Decimal

/-- Milliseconds of a day. -/
def dayMillis : Int := 86400000

/-- The least year that is written as a date. -/
def leastYear : Int := -262143

/-- The greatest year that is written as a date. -/
def greatestYear : Int := 262142

/-! ## Writing -/

/-- A year: four digits, or a sign and at least four digits. -/
def yearText (year : Int) : List Char :=
  if 0 ≤ year ∧ year ≤ 9999 then padded 4 year.toNat
  else (if year < 0 then '-' else '+') :: padded 4 year.natAbs

/-- A date, with hyphens. -/
def dateText (d : Date) : List Char :=
  yearText d.year ++ '-' :: padded 2 d.month ++ '-' :: padded 2 d.day

/-- A time of day, with three places after the second. -/
def timeText (millis : Nat) : List Char :=
  padded 2 (millis / 3600000) ++ ':' :: padded 2 (millis / 60000 % 60) ++
    ':' :: padded 2 (millis / 1000 % 60) ++ '.' :: padded 3 (millis % 1000)

/-- An instant, written as date and time if its year allows. -/
def render (t : Timestamp) : List Char :=
  let date := Date.ofDayNumber (t.millis / dayMillis)
  if leastYear ≤ date.year ∧ date.year ≤ greatestYear then
    dateText date ++ 'T' :: timeText (t.millis % dayMillis).toNat ++ ['Z']
  else signed t.millis

/-- The text of an instant. -/
def text (t : Timestamp) : String := String.ofList t.render

/-! ## Reading -/

/-- Reads one or two digits, for a number up to `limit`. -/
def readUpTo? (limit : Nat) (cs : List Char) : Option Nat := do
  let n ← readNat? cs
  if n ≤ limit then some n else none

/-- The milliseconds of a fraction's digits; further digits are cut. -/
def fractionMillis (ds : List Char) : Nat := ofDigits ((ds ++ ['0', '0', '0']).take 3)

/-- Minus signs, the second one U+2212. -/
def isMinus (c : Char) : Bool := c == '-' || c.toNat == 0x2212

/-- An offset from UTC in minutes. -/
def readOffset? : List Char → Option Int
  | ['Z'] => some 0
  | ['z'] => some 0
  | [sign, a, b, ':', c, d] => do
    let hours ← readUpTo? 23 [a, b]
    let minutes ← readUpTo? 59 [c, d]
    let offset : Int := (60 * hours + minutes : Nat)
    if sign = '+' then some offset
    else if isMinus sign then some (-offset)
    else none
  | _ => none

/-- What follows the seconds: the milliseconds and the offset in minutes. -/
def readTail? : List Char → Option (Nat × Int)
  | '.' :: rest => do
    let ds := rest.takeWhile isDigit
    if ds = [] then none
    else
      let offset ← readOffset? (rest.dropWhile isDigit)
      return (fractionMillis ds, offset)
  | rest => (readOffset? rest).map fun offset => (0, offset)

/-- Date, time and offset. Second 60 is the first second of the next minute. -/
def readInstant? : List Char → Option Int
  | y₁ :: y₂ :: y₃ :: y₄ :: '-' :: m₁ :: m₂ :: '-' :: d₁ :: d₂ :: separator ::
      h₁ :: h₂ :: ':' :: n₁ :: n₂ :: ':' :: s₁ :: s₂ :: rest => do
    let year ← readNat? [y₁, y₂, y₃, y₄]
    let month ← readNat? [m₁, m₂]
    let day ← readNat? [d₁, d₂]
    let date ← Date.mk? year month day
    let hour ← readUpTo? 23 [h₁, h₂]
    let minute ← readUpTo? 59 [n₁, n₂]
    let second ← readUpTo? 60 [s₁, s₂]
    let (millis, offset) ← readTail? rest
    if separator = 'T' ∨ separator = 't' ∨ separator = ' ' then
      some (date.dayNumber * dayMillis +
        (3600000 * hour + 60000 * minute + 1000 * second + millis : Nat) - 60000 * offset)
    else none
  | _ => none

/-- Up to `count` digits at the beginning, and the rest. -/
def spanUpTo : Nat → List Char → List Char × List Char
  | count + 1, c :: rest =>
    if isDigit c then
      let (ds, rest) := spanUpTo count rest
      (c :: ds, rest)
    else ([], c :: rest)
  | _, cs => ([], cs)

/-- Up to four digits without a sign or any number of digits after one, and the rest. -/
def spanYear? (cs : List Char) : Option (Int × List Char) :=
  match cs with
  | '-' :: cs =>
    (readNat? (cs.takeWhile isDigit)).map fun (n : Nat) => (-(n : Int), cs.dropWhile isDigit)
  | '+' :: cs =>
    (readNat? (cs.takeWhile isDigit)).map fun (n : Nat) => ((n : Int), cs.dropWhile isDigit)
  | cs =>
    let (ds, rest) := spanUpTo 4 cs
    (readNat? ds).map fun (n : Nat) => ((n : Int), rest)

/-- A hyphen, white space, and one or two digits; and the rest. -/
def spanPart? : List Char → Option (Nat × List Char)
  | '-' :: cs =>
    let (ds, rest) := spanUpTo 2 (Text.trimStart cs)
    (readNat? ds).map fun n => (n, rest)
  | _ => none

/-- A date, as the milliseconds of its first instant. -/
def readDate? (cs : List Char) : Option Int := do
  let (year, cs) ← spanYear? (Text.trimStart cs)
  let (month, cs) ← spanPart? cs
  let (day, cs) ← spanPart? cs
  let date ← Date.mk? year month day
  if cs = [] ∧ leastYear ≤ year ∧ year ≤ greatestYear then some (date.dayNumber * dayMillis)
  else none

/-- A count of milliseconds. -/
def readMillis? (cs : List Char) : Option Int := do
  let n ← readInt? cs
  if minSigned ≤ n ∧ n ≤ maxSigned then some n else none

/-- A text that none of the notations reads. -/
structure Unreadable where
  input : String
  deriving DecidableEq, Repr

/-- The message names the text with its white space. -/
def Unreadable.message (e : Unreadable) : String := "invalid timestamp: " ++ e.input

/-- Reads an instant in any of the three notations. -/
def parse? (cs : List Char) : Option Timestamp :=
  let cs := Text.trim cs
  ((readInstant? cs).or ((readDate? cs).or (readMillis? cs))).bind ofMillis?

/-- Reads an instant, or reports the text. -/
def parse (input : String) : Except Unreadable Timestamp :=
  match parse? input.toList with
  | some t => .ok t
  | none => .error ⟨input⟩

end Outbox.Timestamp
