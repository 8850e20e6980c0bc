/-!
# Taking turns

Those who wait for answers take turns. A turn is a number of waits that may end without any time
passing. Who has none left rests, and goes on in a new turn when a round of others' turns is over.
A wait that takes time ends the turn as well, and its end is the first wait of the next turn.

A wait may have a limit. An answer right at the limit still counts. Who has no waits left while a
limit is up goes on at once, without the answer; but a request that was begun without any waits
left begins with a rest, whatever its limit.
-/

namespace Outbox

/-- What is left of a turn. -/
structure Turn where
  /-- The waits that may still end without any time passing. -/
  waits : Nat
  /-- Whether there were waits left when the present request was begun. -/
  begun : Bool
  /-- The tasks that have the next turns: they were dropped, and each ends in its turn. -/
  ahead : Nat
  deriving DecidableEq, Repr

/-- Whether an answer after a delay comes too late for what is left of a limit. -/
def tooLate (delay : Nat) (left : Option Nat) : Bool :=
  match left with
  | none => false
  | some left => left < delay

/-- A wait for an answer. -/
structure Wait where
  /-- Whether a rest comes first. -/
  rests : Bool
  /-- The milliseconds that it takes. -/
  millis : Nat
  /-- Whether it ends with the answer, and not at the limit. -/
  inTime : Bool
  /-- The turn in which it ends. -/
  turn : Turn
  deriving DecidableEq, Repr

namespace Turn

/-- A new turn. -/
def full : Turn := ⟨128, true, 0⟩

/-- The turns of a round. -/
def roundLength : Nat := 61

/-- A turn with one wait less. -/
def spend (turn : Turn) : Turn := { turn with waits := turn.waits - 1 }

/-- The turn in which a wait ends that took time. -/
def resumed : Turn := full.spend

/-- The turn in which a wait ends that began with a rest. -/
def rested (turn : Turn) : Turn := { resumed with ahead := turn.ahead - roundLength }

/-- Begins a request, which may have several waits under one limit. -/
def beginRequest (turn : Turn) : Turn := { turn with begun := turn.waits != 0 }

/-- Waits for an answer that is there at once or comes after a delay, with what is left of a limit
if there is one. -/
def wait (turn : Turn) (delay left : Option Nat) : Wait :=
  match delay with
  | none => ⟨false, 0, true, turn⟩
  | some delay =>
    if turn.waits = 0 ∧ turn.begun ∧ left = some 0 then ⟨false, 0, false, turn⟩
    else
      let inTime := !tooLate delay left
      let millis := if inTime then delay else left.getD 0
      let rests := turn.waits == 0
      ⟨rests, millis, inTime,
        if 0 < millis then resumed else if rests then turn.rested else turn.spend⟩

end Turn
end Outbox
