import Outbox.Word

/-!
# Instants

A `Timestamp` is a signed 64-bit count of milliseconds since 1970-01-01T00:00:00Z.

`Timestamp` models the type of that name, and its order is that of the counts.
-/

namespace Outbox

/-- Milliseconds since the epoch, in the range of signed 64-bit integers. -/
structure Timestamp where
  millis : Int
  inRange : minSigned ≤ millis ∧ millis ≤ maxSigned
  deriving DecidableEq, Repr

namespace Timestamp

/-- The instant 1970-01-01T00:00:00Z. -/
def epoch : Timestamp := ⟨0, by decide⟩

instance : Inhabited Timestamp := ⟨epoch⟩

/-- The instant, if the count is in range. -/
def ofMillis? (n : Int) : Option Timestamp :=
  if h : minSigned ≤ n ∧ n ≤ maxSigned then some ⟨n, h⟩ else none

/-- The instant nearest to a count that may be out of range. -/
def clamp (n : Int) : Timestamp :=
  if h : minSigned ≤ n ∧ n ≤ maxSigned then ⟨n, h⟩
  else if n < minSigned then ⟨minSigned, by decide⟩
  else ⟨maxSigned, by decide⟩

instance : LE Timestamp := ⟨fun a b => a.millis ≤ b.millis⟩
instance : LT Timestamp := ⟨fun a b => a.millis < b.millis⟩
instance (a b : Timestamp) : Decidable (a ≤ b) := inferInstanceAs (Decidable (a.millis ≤ b.millis))
instance (a b : Timestamp) : Decidable (a < b) := inferInstanceAs (Decidable (a.millis < b.millis))

@[ext] theorem ext {a b : Timestamp} (h : a.millis = b.millis) : a = b := by
  cases a
  cases b
  simp_all

theorem ofMillis?_millis (t : Timestamp) : ofMillis? t.millis = some t := by
  simp [ofMillis?, t.inRange]

end Timestamp
end Outbox
