import Outbox.Double.Basic

/-!
# The shortest decimal that reads back

Every double is the nearest one to all decimals of an interval around it. `shortest` gives the
decimal with the fewest digits in that interval, and of those the nearest to the double.

The search goes through the grids of one, two, … seventeen significant digits. If a point of a
grid lies in the interval, so does one of the double's two neighbours on that grid, hence only
these two are tried. Seventeen digits always suffice.

`Layout` says how a decimal is written: where positional notation ends on either side.
-/

namespace Outbox.Double

/-- A positive decimal `0.d₁d₂… * 10 ^ point`, with `d₁` not zero. -/
structure Decimal where
  digits : List Char
  point : Int
  deriving DecidableEq, Repr

/-- Half the gap to the next smaller double and half the gap to the next larger one, in quarters
of the mantissa's last place. Below a power of two the gap is half as wide, except at the least
exponent. -/
def halfGaps (magnitude : Nat) : Nat × Nat :=
  if mantissa magnitude = leastNormal ∧ leastExponent < exponent magnitude then (1, 2)
  else (2, 2)

/-- Whether `num / den` rounds to the double of this magnitude. -/
def readsBack (magnitude num den : Nat) : Bool :=
  let m := mantissa magnitude
  let quarter := scaled 1 2 (exponent magnitude - 2)
  let scaledNum := num * quarter.2
  let unit := den * quarter.1
  let low := (4 * m - (halfGaps magnitude).1) * unit
  let high := (4 * m + (halfGaps magnitude).2) * unit
  if m % 2 = 0 then low ≤ scaledNum && scaledNum ≤ high
  else low < scaledNum && scaledNum < high

/-- The number of decimal digits before the point of `num / den`, negative for the zeros after
it: `10 ^ (size - 1) ≤ num / den < 10 ^ size`. -/
def decimalSize (num den : Nat) : Int :=
  let guess := ((num.log2 : Int) - (den.log2 : Int)) * 30103 / 100000
  let reaches (e : Int) : Bool :=
    let power := scaled 1 10 e
    power.1 * den ≤ num * power.2
  if reaches (guess + 1) then guess + 2
  else if reaches guess then guess + 1
  else if reaches (guess - 1) then guess
  else guess - 1

/-- The points of the grid of `count` digits next to `num / den` that read back as the
magnitude, as integers over `10 ^ place`, nearest first. -/
def candidates (magnitude : Nat) (place : Int) : List Nat :=
  let value := ratio magnitude
  let step := scaled 1 10 place
  let num := value.1 * step.2
  let den := value.2 * step.1
  let below := num / den
  let fits (n : Nat) : Bool := readsBack magnitude (n * step.1) step.2
  let preferBelow := 2 * (num % den) < den || (2 * (num % den) == den && below % 2 == 0)
  (if preferBelow then [below, below + 1] else [below + 1, below]).filter fits

/-- The shortest digits among the grids of `count` and more digits. -/
def shortestFrom (magnitude : Nat) (size : Int) : Nat → Nat → Nat × Int
  | 0, count => (0, size - count)
  | fuel + 1, count =>
    let place := size - count
    match candidates magnitude place with
    | n :: _ => (n, place)
    | [] => shortestFrom magnitude size fuel (count + 1)

/-- Drops the zeros at the end. -/
def dropZeros (cs : List Char) : List Char := (cs.reverse.dropWhile (· == '0')).reverse

/-- The fewest digits that read back as the positive double of this magnitude. -/
def shortest (magnitude : Nat) : Decimal :=
  let value := ratio magnitude
  let found := shortestFrom magnitude (decimalSize value.1 value.2) 17 1
  let written := Nat.toDigits 10 found.1
  ⟨dropZeros written, found.2 + written.length⟩

/-- How decimals are written. Numbers `d.ddd * 10 ^ e` are positional for
`positionalFrom ≤ e < positionalBelow` and have an exponent with a sign otherwise. -/
structure Layout where
  positionalFrom : Int
  positionalBelow : Int
  deriving DecidableEq, Repr

/-- A decimal in positional notation, with at least one digit on both sides of the point. -/
def Decimal.positional (d : Decimal) : List Char :=
  if d.point ≤ 0 then
    '0' :: '.' :: List.replicate (-d.point).toNat '0' ++ d.digits
  else
    let whole := d.point.toNat
    let after := d.digits.drop whole
    d.digits.take whole ++ List.replicate (whole - d.digits.length) '0' ++
      '.' :: (if after.isEmpty then ['0'] else after)

/-- A decimal with one digit before the point and an exponent; the sign of the exponent is
always written. -/
def Decimal.scientific (d : Decimal) : List Char :=
  let e := d.point - 1
  let exponent := 'e' :: (if e < 0 then '-' else '+') :: Nat.toDigits 10 e.natAbs
  match d.digits with
  | [] => exponent
  | first :: [] => first :: exponent
  | first :: rest => first :: '.' :: rest ++ exponent

/-- The text of a double under a layout. -/
def render (layout : Layout) (d : Double) : String :=
  let sign := if d.negative then ['-'] else []
  let body :=
    if d.isZero then ['0', '.', '0']
    else
      let decimal := shortest d.magnitude
      if layout.positionalFrom ≤ decimal.point - 1 ∧ decimal.point - 1 < layout.positionalBelow
      then decimal.positional else decimal.scientific
  String.ofList (sign ++ body)

end Outbox.Double
