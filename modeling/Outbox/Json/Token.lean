import Outbox.Json.Draft
import Outbox.Json.Numeral

/-!
# The tokens of a JSON text

`tokens?` cuts a text into brackets, commas, colons and scalars. White space is blank, tab and
the two line breaks. Each scanner hands back what it leaves, which is shorter than what it got:
that is why the cutting ends.

A text is refused at a character below U+0020 or an unknown escape inside a string, and where
there is no token. A string with a surrogate that has no partner and a number too large for a
double are scalars without a value.
-/

namespace Outbox.Json

/-- A lexical unit of a JSON text. -/
inductive Token where
  | openObject
  | closeObject
  | openArray
  | closeArray
  | colon
  | comma
  | scalar (value : Draft)
  deriving Repr

/-! ## Strings -/

/-- The value of a hexadecimal digit. -/
def hexValue? (c : Char) : Option Nat :=
  if '0' ≤ c ∧ c ≤ '9' then some (c.toNat - '0'.toNat)
  else if 'a' ≤ c ∧ c ≤ 'f' then some (c.toNat - 'a'.toNat + 10)
  else if 'A' ≤ c ∧ c ≤ 'F' then some (c.toNat - 'A'.toNat + 10)
  else none

/-- The number that four hexadecimal digits denote. -/
def hexUnit? (a b c d : Char) : Option Nat := do
  let a ← hexValue? a
  let b ← hexValue? b
  let c ← hexValue? c
  let d ← hexValue? d
  return ((a * 16 + b) * 16 + c) * 16 + d

/-- The character that an escape of one letter stands for. -/
def simpleEscape? : Char → Option Char
  | '"' => some '"'
  | '\\' => some '\\'
  | '/' => some '/'
  | 'b' => some (Char.ofNat 8)
  | 'f' => some (Char.ofNat 12)
  | 'n' => some '\n'
  | 'r' => some '\r'
  | 't' => some '\t'
  | _ => none

/-- The unit is the first of a surrogate pair. -/
def isHighSurrogate (unit : Nat) : Bool := 0xD800 ≤ unit && unit < 0xDC00

/-- The unit is the second of a surrogate pair. -/
def isLowSurrogate (unit : Nat) : Bool := 0xDC00 ≤ unit && unit < 0xE000

/-- The character of a surrogate pair. -/
def pairChar (high low : Nat) : Char :=
  Char.ofNat (0x10000 + (high - 0xD800) * 0x400 + (low - 0xDC00))

/-- A part of a string: a character, or a 16-bit unit written as a number. -/
inductive Piece where
  | char (c : Char)
  | unit (n : Nat)
  deriving DecidableEq, Repr

/-- The characters that pieces make up. The two units of a surrogate pair stand for one
character, and neither stands alone. -/
def charsOf? : List Piece → Option (List Char)
  | [] => some []
  | .char c :: rest => (charsOf? rest).map (c :: ·)
  | .unit high :: .unit low :: rest =>
    if isHighSurrogate high then
      if isLowSurrogate low then (charsOf? rest).map (pairChar high low :: ·) else none
    else if isLowSurrogate high then none
    else (charsOf? (.unit low :: rest)).map (Char.ofNat high :: ·)
  | .unit n :: rest =>
    if isHighSurrogate n || isLowSurrogate n then none
    else (charsOf? rest).map (Char.ofNat n :: ·)

/-- The text of a string's pieces. -/
def textOf? (pieces : List Piece) : Option String := (charsOf? pieces).map String.ofList

/-- The pieces of a string up to its closing mark, and the rest after it. -/
def scanString : List Char → Option (List Piece × List Char)
  | [] => none
  | '"' :: rest => some ([], rest)
  | '\\' :: 'u' :: a :: b :: c :: d :: rest =>
    match hexUnit? a b c d with
    | none => none
    | some n => (scanString rest).map fun r => (.unit n :: r.1, r.2)
  | '\\' :: letter :: rest =>
    match simpleEscape? letter with
    | none => none
    | some c => (scanString rest).map fun r => (.char c :: r.1, r.2)
  | c :: rest =>
    if c = '\\' ∨ c.toNat < 32 then none
    else (scanString rest).map fun r => (.char c :: r.1, r.2)

theorem scanString_length {cs rest : List Char} {pieces : List Piece}
    (h : scanString cs = some (pieces, rest)) : rest.length < cs.length := by
  fun_induction scanString cs generalizing pieces rest with
  | case1 => cases h
  | case2 r => simp at h; simp [h]
  | case3 => cases h
  | case4 _ _ _ _ _ _ _ ih =>
    obtain ⟨u, hu, he⟩ := Option.map_eq_some_iff.1 h
    obtain ⟨-, rfl⟩ := Prod.mk.inj he
    have := ih hu
    simp only [List.length_cons]
    omega
  | case5 => cases h
  | case6 _ _ _ _ _ ih =>
    obtain ⟨u, hu, he⟩ := Option.map_eq_some_iff.1 h
    obtain ⟨-, rfl⟩ := Prod.mk.inj he
    have := ih hu
    simp only [List.length_cons]
    omega
  | case7 => cases h
  | case8 _ _ _ _ _ _ ih =>
    obtain ⟨u, hu, he⟩ := Option.map_eq_some_iff.1 h
    obtain ⟨-, rfl⟩ := Prod.mk.inj he
    have := ih hu
    simp only [List.length_cons]
    omega

/-! ## Texts -/

/-- White space between tokens. -/
def isGap (c : Char) : Bool := c == ' ' || c == '\t' || c == '\n' || c == '\r'

/-- The tokens of a text. -/
def tokens? (cs : List Char) : Option (List Token) :=
  match cs with
  | [] => some []
  | '\x7b' :: rest => (tokens? rest).map (.openObject :: ·)
  | '\x7d' :: rest => (tokens? rest).map (.closeObject :: ·)
  | '[' :: rest => (tokens? rest).map (.openArray :: ·)
  | ']' :: rest => (tokens? rest).map (.closeArray :: ·)
  | ':' :: rest => (tokens? rest).map (.colon :: ·)
  | ',' :: rest => (tokens? rest).map (.comma :: ·)
  | 'n' :: 'u' :: 'l' :: 'l' :: rest => (tokens? rest).map (.scalar .null :: ·)
  | 't' :: 'r' :: 'u' :: 'e' :: rest => (tokens? rest).map (.scalar (.bool true) :: ·)
  | 'f' :: 'a' :: 'l' :: 's' :: 'e' :: rest => (tokens? rest).map (.scalar (.bool false) :: ·)
  | '"' :: rest =>
    match _h : scanString rest with
    | none => none
    | some (pieces, rest') => (tokens? rest').map (.scalar (.str (textOf? pieces)) :: ·)
  | c :: rest =>
    if isGap c then tokens? rest
    else
      match _h : scanNumber (c :: rest) with
      | none => none
      | some (n, rest') => (tokens? rest').map (.scalar (.num n) :: ·)
termination_by cs.length
decreasing_by
  all_goals simp only [List.length_cons]
  all_goals try omega
  · have := scanString_length _h
    omega
  · have := scanNumber_length _h
    simpa only [List.length_cons] using this

end Outbox.Json
