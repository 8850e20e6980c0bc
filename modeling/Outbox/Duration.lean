import Outbox.Text.Decimal
import Outbox.Word

/-!
# Spans of time

A `Duration` is a count of seconds in the range of unsigned 64-bit integers, and nanoseconds
below one second. Limits are kept as whole milliseconds: `storedMillis` cuts what is below a
millisecond and stops at the largest unsigned 64-bit integer.

`storedMillis` models `duration_to_ms`.
-/

namespace Outbox

/-- Seconds and nanoseconds. -/
structure Duration where
  seconds : UInt64
  nanos : Nat
  nanos_lt : nanos < 1000000000
  deriving DecidableEq

namespace Duration

/-- Seconds and any number of nanoseconds; `none` if they are more seconds than can be counted. -/
def ofParts? (seconds nanos : Nat) : Option Duration :=
  if ((seconds + nanos / 1000000000 : Nat) : Int) ≤ maxUnsigned then
    some ⟨UInt64.ofNat (seconds + nanos / 1000000000), nanos % 1000000000, by omega⟩
  else none

/-- The span in nanoseconds. -/
def totalNanos (d : Duration) : Nat := d.seconds.toNat * 1000000000 + d.nanos

instance : LE Duration := ⟨fun a b => a.totalNanos ≤ b.totalNanos⟩
instance (a b : Duration) : Decidable (a ≤ b) :=
  inferInstanceAs (Decidable (a.totalNanos ≤ b.totalNanos))

/-- A span of whole milliseconds. -/
def ofMillis (millis : UInt64) : Duration where
  seconds := UInt64.ofNat (millis.toNat / 1000)
  nanos := millis.toNat % 1000 * 1000000
  nanos_lt := by omega

/-- The whole milliseconds of a span. -/
def wholeMillis (d : Duration) : Nat := d.seconds.toNat * 1000 + d.nanos / 1000000

/-- The whole milliseconds, or the largest count if there are more. -/
def storedMillis (d : Duration) : UInt64 :=
  if (d.wholeMillis : Int) ≤ maxUnsigned then UInt64.ofNat d.wholeMillis
  else UInt64.ofNat maxUnsigned.toNat

/-- Whole milliseconds with their unit: `0ns`, milliseconds below a second, seconds from there
on, with the places after the point that are needed. -/
def millisText (millis : Nat) : String :=
  if millis = 0 then "0ns"
  else if millis < 1000 then String.ofList (Decimal.digits millis) ++ "ms"
  else
    let places := ((Decimal.padded 3 (millis % 1000)).reverse.dropWhile (· == '0')).reverse
    let fraction := if places.isEmpty then [] else '.' :: places
    String.ofList (Decimal.digits (millis / 1000) ++ fraction) ++ "s"

end Duration
end Outbox
