/-!
# Binary floating-point numbers, exactly

A finite double is a sign and a magnitude. The magnitude is the number's 63 low bits read as a
natural number, so larger magnitudes denote larger absolute values, and the next double is the
next natural number.

* `mantissa` and `exponent` give the absolute value as `mantissa * 2 ^ exponent`.
* `roundRatio num den` is the magnitude nearest to `num / den`, ties to the even one, and `none`
  from half a unit above the largest finite number on.
* `ofScientific` reads a decimal, `ratio` gives a value back as a fraction, and `truncate` cuts
  the fraction off.
* `scaleTen?` moves the decimal point of a double by one product or quotient of doubles.

All of it is arithmetic on natural numbers: no step rounds but the one that says so.
-/

namespace Outbox

/-- A finite double: its sign and its magnitude, the lower 63 bits. -/
structure Double where
  negative : Bool
  magnitude : Nat
  deriving DecidableEq, Repr

namespace Double

/-- The number of bits after the leading one. -/
def fractionBits : Nat := 52

/-- The exponent of the least positive double. -/
def leastExponent : Int := -1074

/-- The least magnitude with a leading one. -/
def leastNormal : Nat := Nat.pow 2 fractionBits

/-- The magnitude of infinity: the finite ones lie below. -/
def infinity : Nat := 2047 * leastNormal

/-- The integer part of the value's binary form: 53 bits, fewer for subnormal numbers. -/
def mantissa (magnitude : Nat) : Nat :=
  if magnitude < leastNormal then magnitude else magnitude % leastNormal + leastNormal

/-- The power of two that scales the mantissa. -/
def exponent (magnitude : Nat) : Int :=
  if magnitude < leastNormal then leastExponent
  else leastExponent + ((magnitude / leastNormal - 1 : Nat) : Int)

/-- `m * b ^ e` as a fraction. -/
def scaled (m b : Nat) (e : Int) : Nat × Nat :=
  if 0 ≤ e then (m * Nat.pow b e.toNat, 1) else (m, Nat.pow b (-e).toNat)

/-- The absolute value of a magnitude as a fraction. -/
def ratio (magnitude : Nat) : Nat × Nat := scaled (mantissa magnitude) 2 (exponent magnitude)

/-- `num / den` to the nearest natural number, ties to the even one. -/
def roundDiv (num den : Nat) : Nat :=
  let q := num / den
  let r := num % den
  if 2 * r < den then q
  else if den < 2 * r then q + 1
  else q + q % 2

/-- The exponent at which `num / den` has a 53-bit integer part, or the least exponent. -/
def scaleOf (num den : Nat) : Int :=
  let guess := max leastExponent ((num.log2 : Int) - (den.log2 : Int) - 53)
  let unit := scaled 1 2 guess
  if num * unit.2 / (den * unit.1) < 2 * leastNormal then guess else guess + 1

/-- The magnitude nearest to `num / den`, ties to the even one. -/
def roundRatio (num den : Nat) : Option Nat :=
  let e := if num = 0 then leastExponent else scaleOf num den
  let unit := scaled 1 2 e
  let q := roundDiv (num * unit.2) (den * unit.1)
  let magnitude := (e - leastExponent).toNat * leastNormal + q
  if magnitude < infinity then some magnitude else none

/-- Decimal numbers of this many digits before the point are beyond the largest double. -/
def decimalLimit : Int := 310

/-- Decimal numbers that begin this many places after the point round to zero. -/
def decimalFloor : Int := -330

/-- The double nearest to `digits * 10 ^ exponent`. -/
def ofScientific (negative : Bool) (digits : Nat) (exponent : Int) : Option Double :=
  let size : Int := (Nat.toDigits 10 digits).length + exponent
  if digits = 0 ∨ size < decimalFloor then some ⟨negative, 0⟩
  else if decimalLimit < size then none
  else
    let value := scaled digits 10 exponent
    (roundRatio value.1 value.2).map fun m => ⟨negative, m⟩

/-- The double nearest to a natural number. -/
def ofNat (n : Nat) : Double := ⟨false, (roundRatio n 1).getD infinity⟩

/-- The quotient of two absolute values, rounded. The divisor is not zero. -/
def divide (a b : Double) : Double :=
  let x := ratio a.magnitude
  let y := ratio b.magnitude
  ⟨a.negative != b.negative, (roundRatio (x.1 * y.2) (x.2 * y.1)).getD infinity⟩

/-- The product, rounded. -/
def multiply (a b : Double) : Double :=
  let x := ratio a.magnitude
  let y := ratio b.magnitude
  ⟨a.negative != b.negative, (roundRatio (x.1 * y.1) (x.2 * y.2)).getD infinity⟩

/-- Positive and negative zero. -/
def isZero (d : Double) : Bool := d.magnitude == 0

/-- The numerical comparison: the two zeros are equal. -/
def equal (a b : Double) : Bool := a == b || (a.isZero && b.isZero)

/-- The exponent of the greatest power of ten among the doubles. -/
def greatestTen : Nat := 308

/-- The double nearest to a power of ten, up to the greatest. -/
def powerOfTen (n : Nat) : Double := ofNat (Nat.pow 10 n)

/-- Divides by the greatest power of ten so many times, or until nothing is left. -/
def shrink : Nat → Double → Double
  | 0, d => d
  | n + 1, d => if d.isZero then d else shrink n (d.divide (powerOfTen greatestTen))

/-- Multiplies by a power of ten, or divides by it if the exponent is negative, and rounds. A
quotient by more than the greatest power of ten takes several steps, each of which rounds. -/
def scaleTen? (d : Double) (exponent : Int) : Option Double :=
  if exponent < 0 then
    let n := exponent.natAbs
    let steps := (n - 1) / greatestTen
    some ((shrink steps d).divide (powerOfTen (n - steps * greatestTen)))
  else if d.isZero then some d
  else if greatestTen < exponent.natAbs then none
  else
    let product := d.multiply (powerOfTen exponent.natAbs)
    if product.magnitude < infinity then some product else none

/-- The integer part, cut toward zero. -/
def truncate (d : Double) : Int :=
  let value := ratio d.magnitude
  let whole : Int := (value.1 / value.2 : Nat)
  if d.negative then -whole else whole

/-- The 64 bits as a number. -/
def bits (d : Double) : Nat := (if d.negative then 0x8000000000000000 else 0) + d.magnitude

end Double
end Outbox
