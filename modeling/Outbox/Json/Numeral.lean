import Outbox.Json.Basic
import Outbox.Text.Decimal

/-!
# The numerals of JSON texts

A numeral is a whole number without leading zeros, perhaps with a minus sign, a fraction and an
exponent. `scanNumber` takes it off a text and `numeral?` gives its number.

Doubles are read in two steps, and each of them rounds. Digits are taken as long as they make up a
number below `2 ^ 64`, from the whole number and then from the fraction; of those left over only
their places count. The nearest double to that number is then multiplied or divided by the nearest
double to a power of ten. With up to 15 digits and 22 places both are exact and the quotient or
product is the double nearest to the numeral; beyond that its last bits may differ.
-/

namespace Outbox.Json

/-! ## Values -/

/-- Numbers from here on take more than 64 bits. -/
def digitLimit : Nat := 0x10000000000000000

/-- Puts digits after a number as long as it stays below the limit: the number, and the digits
that are left over. -/
def takeDigits (n : Nat) : List Char → Nat × List Char
  | [] => (n, [])
  | c :: rest =>
    if 10 * n + Decimal.digitValue c < digitLimit then
      takeDigits (10 * n + Decimal.digitValue c) rest
    else (n, c :: rest)

/-- The double of a numeral's parts, unless it is too large. -/
def readDouble? (negative : Bool) (whole fraction : List Char) (exponent : Int) :
    Option Double :=
  let (n, beyond) := takeDigits 0 whole
  let (n, dropped) := takeDigits n fraction
  let places : Int := beyond.length - (fraction.length - dropped.length)
  Double.scaleTen? { Double.ofNat n with negative } (exponent + places)

/-- The number of a numeral's parts, unless it is too large. Without fraction and exponent it is
an integer, except for `-0` and for integers beyond 64 bits. -/
def numeral? (negative : Bool) (whole fraction : List Char) (exponent : Option Int) :
    Option Number :=
  let digits := Decimal.ofDigits whole
  let n : Int := if negative then -(digits : Int) else digits
  if fraction.isEmpty ∧ exponent = none ∧ ¬ (negative ∧ digits = 0) ∧ Number.isWord n then
    some (.integer n)
  else (readDouble? negative whole fraction (exponent.getD 0)).map .double

/-! ## Scanners -/

/-- The digits at the beginning, and the rest. -/
def spanDigits (cs : List Char) : List Char × List Char :=
  (cs.takeWhile Decimal.isDigit, cs.dropWhile Decimal.isDigit)

/-- The digits after a point, if there is a point. -/
def scanFraction : List Char → Option (List Char × List Char)
  | '.' :: rest => if (spanDigits rest).1.isEmpty then none else some (spanDigits rest)
  | rest => some ([], rest)

/-- A sign at the beginning, and the rest: whether it is a minus sign. -/
def spanSign : List Char → Bool × List Char
  | '-' :: rest => (true, rest)
  | '+' :: rest => (false, rest)
  | rest => (false, rest)

/-- A signed exponent after `e` or `E`, if there is one. -/
def scanExponent : List Char → Option (Option Int × List Char)
  | e :: rest =>
    if e = 'e' ∨ e = 'E' then
      let (negative, rest) := spanSign rest
      let (ds, rest) := spanDigits rest
      let n : Int := Decimal.ofDigits ds
      if ds.isEmpty then none else some (some (if negative then -n else n), rest)
    else some (none, e :: rest)
  | [] => some (none, [])

/-- The number of a numeral without its sign, if it is not too large, and the rest. -/
def scanUnsigned (negative : Bool) (cs : List Char) : Option (Option Number × List Char) :=
  let (whole, rest) := spanDigits cs
  if whole.isEmpty ∨ (whole.head? = some '0' ∧ 1 < whole.length) then none
  else do
    let (fraction, rest) ← scanFraction rest
    let (exponent, rest) ← scanExponent rest
    return (numeral? negative whole fraction exponent, rest)

/-- The number of a numeral, if it is not too large, and the rest. -/
def scanNumber : List Char → Option (Option Number × List Char)
  | '-' :: rest => scanUnsigned true rest
  | rest => scanUnsigned false rest

theorem spanDigits_length (cs : List Char) :
    (spanDigits cs).1.length + (spanDigits cs).2.length = cs.length := by
  simp only [spanDigits]
  rw [← List.length_append, List.takeWhile_append_dropWhile]

theorem scanFraction_length {cs ds rest : List Char} (h : scanFraction cs = some (ds, rest)) :
    rest.length ≤ cs.length := by
  unfold scanFraction at h
  split at h
  · rename_i r
    have hl := spanDigits_length r
    split at h
    · cases h
    · rw [Option.some.inj h] at hl
      simp only [List.length_cons] at hl ⊢
      omega
  · simp at h
    simp [h]

theorem spanSign_length (cs : List Char) : (spanSign cs).2.length ≤ cs.length := by
  unfold spanSign
  split <;> simp

theorem scanExponent_length {cs rest : List Char} {n : Option Int}
    (h : scanExponent cs = some (n, rest)) : rest.length ≤ cs.length := by
  unfold scanExponent at h
  split at h
  · rename_i e r
    split at h
    · simp only at h
      split at h <;> simp at h
      obtain ⟨-, rfl⟩ := h
      have := spanSign_length r
      have := spanDigits_length (spanSign r).2
      simp only [List.length_cons]
      omega
    · simp at h
      simp [h]
  · simp at h
    simp [h]

theorem scanUnsigned_length {negative : Bool} {cs rest : List Char} {n : Option Number}
    (h : scanUnsigned negative cs = some (n, rest)) : rest.length < cs.length := by
  unfold scanUnsigned at h
  have hs := spanDigits_length cs
  simp only at h
  split at h
  · cases h
  · rename_i hw
    simp only [not_or, List.isEmpty_iff] at hw
    have hpos : 0 < (spanDigits cs).1.length := List.length_pos_iff.2 hw.1
    simp only [Option.bind_eq_bind, Option.bind_eq_some_iff, Option.pure_def,
      Option.some.injEq, Prod.mk.injEq] at h
    obtain ⟨f, hf, e, he, -, rfl⟩ := h
    have := scanFraction_length hf
    have := scanExponent_length he
    omega

theorem scanNumber_length {cs rest : List Char} {n : Option Number}
    (h : scanNumber cs = some (n, rest)) : rest.length < cs.length := by
  unfold scanNumber at h
  split at h
  · have := scanUnsigned_length h
    simp only [List.length_cons]
    omega
  · exact scanUnsigned_length h

end Outbox.Json
