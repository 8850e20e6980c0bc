import Outbox.Double.Basic
import Outbox.Json.Token
import Outbox.Word

/-!
# Scalars of TOML documents

Strings between quotation marks with escapes, strings between apostrophes without, and everything
that is written as one word: integers, floats and truth values.

The digits of a number may be separated by single underscores. Decimal integers have no leading
zeros and may have a sign; hexadecimal, octal and binary ones have no sign. All integers are
signed 64-bit integers. A float is refused if it is too large for a double; one that is too far
below zero is minus infinity.
-/

namespace Outbox.Toml

/-- A value. Of floats and arrays no more is kept than that they are there. -/
inductive Value where
  | integer (n : Int)
  | float
  | boolean (b : Bool)
  | string (s : String)
  | array
  deriving DecidableEq, Repr

/-! ## Strings -/

/-- A character that may stand in comments and strings: no control character but the tab. -/
def isPrintable (c : Char) : Bool := c == '\t' || (32 ≤ c.toNat && c.toNat != 127)

/-- The character of an escape of one letter. -/
def simpleEscape? : Char → Option Char
  | 'b' => some (Char.ofNat 8)
  | 't' => some '\t'
  | 'n' => some '\n'
  | 'f' => some (Char.ofNat 12)
  | 'r' => some '\r'
  | '"' => some '"'
  | '\\' => some '\\'
  | _ => none

/-- The character with a code point in hexadecimal digits. -/
def codePoint? (digits : List Char) : Option Char := do
  let values ← digits.mapM Json.hexValue?
  let n := values.foldl (fun n d => 16 * n + d) 0
  if n < 0xD800 ∨ (0xE000 ≤ n ∧ n < 0x110000) then some (Char.ofNat n) else none

/-- The characters up to the quotation mark, and the rest after it. -/
def scanBasic : List Char → Option (List Char × List Char)
  | '"' :: rest => some ([], rest)
  | '\\' :: 'u' :: a :: b :: c :: d :: rest =>
    match codePoint? [a, b, c, d] with
    | some ch => (scanBasic rest).map fun r => (ch :: r.1, r.2)
    | none => none
  | '\\' :: 'U' :: a :: b :: c :: d :: e :: f :: g :: h :: rest =>
    match codePoint? [a, b, c, d, e, f, g, h] with
    | some ch => (scanBasic rest).map fun r => (ch :: r.1, r.2)
    | none => none
  | '\\' :: letter :: rest =>
    match simpleEscape? letter with
    | some ch => (scanBasic rest).map fun r => (ch :: r.1, r.2)
    | none => none
  | ch :: rest =>
    if isPrintable ch && ch != '\\' then (scanBasic rest).map fun r => (ch :: r.1, r.2) else none
  | [] => none

/-- The characters up to the apostrophe, and the rest after it. -/
def scanLiteral : List Char → Option (List Char × List Char)
  | '\'' :: rest => some ([], rest)
  | ch :: rest =>
    if isPrintable ch then (scanLiteral rest).map fun r => (ch :: r.1, r.2) else none
  | [] => none

/-! ## Words -/

/-- The digits of a number without the underscores, each of which stands between two digits. -/
def plainDigits? (isDigit : Char → Bool) : List Char → Option (List Char)
  | [] => none
  | [c] => if isDigit c then some [c] else none
  | c :: '_' :: rest =>
    if isDigit c then (plainDigits? isDigit rest).map (c :: ·) else none
  | c :: rest => if isDigit c then (plainDigits? isDigit rest).map (c :: ·) else none

/-- The digits of a decimal integer without sign and without leading zeros. -/
def wholeDigits? (cs : List Char) : Option (List Char) := do
  let ds ← plainDigits? Decimal.isDigit cs
  if ds.length > 1 ∧ ds.head? = some '0' then none else some ds

/-- The digits of an integer to a base. -/
def readBase? (base : Nat) (cs : List Char) : Option Nat := do
  let fits (c : Char) : Bool := (Json.hexValue? c).any (· < base)
  let ds ← plainDigits? fits cs
  let values ← ds.mapM Json.hexValue?
  return values.foldl (fun n d => base * n + d) 0

/-- Takes a sign off: whether it is a minus sign, and the rest. -/
def splitSign : List Char → Bool × List Char
  | '-' :: rest => (true, rest)
  | '+' :: rest => (false, rest)
  | rest => (false, rest)

/-- A number with its sign. -/
def withSign (negative : Bool) (n : Nat) : Int := if negative then -(n : Int) else n

/-- An integer of any notation. -/
def readInteger? : List Char → Option Int
  | '0' :: 'x' :: rest => (readBase? 16 rest).map fun n => (n : Int)
  | '0' :: 'o' :: rest => (readBase? 8 rest).map fun n => (n : Int)
  | '0' :: 'b' :: rest => (readBase? 2 rest).map fun n => (n : Int)
  | cs =>
    let (negative, rest) := splitSign cs
    (wholeDigits? rest).map fun ds => withSign negative (Decimal.ofDigits ds)

/-- A digit or an underscore. -/
def isDigitPart (c : Char) : Bool := Decimal.isDigit c || c == '_'

/-- The power of ten of an exponent with its letter; nothing is no power. -/
def readExponent? : List Char → Option Int
  | [] => some 0
  | c :: rest =>
    if c = 'e' ∨ c = 'E' then
      let (negative, rest) := splitSign rest
      (plainDigits? Decimal.isDigit rest).map fun ds => withSign negative (Decimal.ofDigits ds)
    else none

/-- The digits of a fraction with its point, if it is there, and the power of ten after it. -/
def readFraction? : List Char → Option (List Char × Int)
  | '.' :: rest => do
    let ds ← plainDigits? Decimal.isDigit (rest.takeWhile isDigitPart)
    let power ← readExponent? (rest.dropWhile isDigitPart)
    return (ds, power)
  | rest => (readExponent? rest).map fun power => ([], power)

/-- The digits of a numeral without sign and the power of ten that scales them. -/
def readNumeral? (cs : List Char) : Option (Nat × Int) := do
  let whole ← wholeDigits? (cs.takeWhile isDigitPart)
  let (fraction, power) ← readFraction? (cs.dropWhile isDigitPart)
  return (Decimal.ofDigits (whole ++ fraction), power - fraction.length)

/-- Whether a word is a float. -/
def isFloat (cs : List Char) : Bool :=
  let (negative, rest) := splitSign cs
  rest == ['i', 'n', 'f'] || rest == ['n', 'a', 'n'] ||
    match readNumeral? rest with
    | none => false
    | some (digits, power) => negative || (Double.ofScientific negative digits power).isSome

/-- The value of a word. -/
def readWord? (cs : List Char) : Option Value :=
  if cs = ['t', 'r', 'u', 'e'] then some (.boolean true)
  else if cs = ['f', 'a', 'l', 's', 'e'] then some (.boolean false)
  else
    match readInteger? cs with
    | some n => if minSigned ≤ n ∧ n ≤ maxSigned then some (.integer n) else none
    | none => if isFloat cs then some .float else none

/-- A character that ends a word. -/
def endsWord (c : Char) : Bool :=
  c == ' ' || c == '\t' || c == '\n' || c == '\r' || c == ',' || c == ']' || c == '#'

/-- A scalar, and the rest. -/
def scanScalar : List Char → Option (Value × List Char)
  | '"' :: rest => (scanBasic rest).map fun r => (.string (String.ofList r.1), r.2)
  | '\'' :: rest => (scanLiteral rest).map fun r => (.string (String.ofList r.1), r.2)
  | cs =>
    let isPart (c : Char) : Bool := !endsWord c
    (readWord? (cs.takeWhile isPart)).map fun v => (v, cs.dropWhile isPart)

end Outbox.Toml
