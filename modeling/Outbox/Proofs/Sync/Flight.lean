import Outbox.Sync.Flight
import Mathlib.Data.List.Induction

/-!
# The flight in the course of events

A flight meets requests and endings in any order, also endings of syncs that never began. What each
event led to is on record (`Flight.record`). The responses that change a flight are starts and
releases, and they take turns; all others leave it as it was, so they can be struck from the record
together with their events (`Flight.record_erased`).

A sync is running if one was started and has not been released since (`Flight.running_iff`): while
no release is on record a flight goes on with the batch that was started, and turns all others away
(`Flight.steady_of_unreleased`).

`Flight.takesTurns` says all this of every list of events.
-/

namespace Outbox.Flight

/-- Whether a response comes with a change of the flight. -/
def Response.changes : Response → Bool
  | .started => true
  | .rejected => false
  | .released => true
  | .ignored => false

/-- The flight after some events. -/
def after (f : Flight) (events : List Event) : Flight := events.foldl (fun f e => (f.on e).1) f

/-- What each event led to. -/
def responses (f : Flight) (events : List Event) : List Response := (f.trace events).map (·.2)

/-- The events, each with what it led to. -/
def record (f : Flight) (events : List Event) : List (Event × Response) :=
  events.zip (f.responses events)

/-- The events that changed the flight. -/
def changing (f : Flight) (events : List Event) : List Event :=
  ((f.record events).filter (·.2.changes)).map (·.1)

/-- A start and a release by turns, beginning with a start. -/
def byTurns (i : Nat) : Response := if i % 2 = 0 then .started else .released

/-! ## One event after the other -/

section Record

variable {f : Flight} {e : Event} {events more : List Event}

theorem after_cons : f.after (e :: events) = (f.on e).1.after events := rfl

theorem after_append : f.after (events ++ more) = (f.after events).after more := List.foldl_append

theorem record_cons : f.record (e :: events) = (e, (f.on e).2) :: (f.on e).1.record events := rfl

theorem record_append :
    f.record (events ++ more) = f.record events ++ (f.after events).record more := by
  induction events generalizing f with
  | nil => rfl
  | cons e events ih =>
    rw [List.cons_append, record_cons, record_cons, after_cons, ih, List.cons_append]

theorem length_record : (f.record events).length = events.length := by
  induction events generalizing f with
  | nil => rfl
  | cons e events ih => rw [record_cons, List.length_cons, List.length_cons, ih]

/-- The record has every event with the response of the flight as it stood before. -/
theorem record_at (before later : List Event) :
    (f.record (before ++ e :: later))[before.length]? = some (e, ((f.after before).on e).2) := by
  have hpast : (f.record before).length ≤ before.length := Nat.le_of_eq length_record
  rw [record_append, record_cons, List.getElem?_append_right hpast, length_record, Nat.sub_self]
  rfl

/-- What is on record somewhere is what an event led to, with others before and after it. -/
theorem of_record_eq {r : Response} {earlier later : List (Event × Response)}
    (h : f.record events = earlier ++ (e, r) :: later) :
    ∃ before rest, events = before ++ e :: rest ∧ ((f.after before).on e).2 = r ∧
      ((f.after before).on e).1.record rest = later := by
  induction earlier generalizing f events with
  | nil =>
    cases events with
    | nil => cases h
    | cons e' rest =>
      obtain ⟨hhead, htail⟩ := List.cons_eq_cons.mp h
      obtain ⟨rfl, hr⟩ := Prod.mk.inj hhead
      exact ⟨[], rest, rfl, hr, htail⟩
  | cons p earlier ih =>
    cases events with
    | nil => cases h
    | cons e' rest =>
      obtain ⟨-, htail⟩ := List.cons_eq_cons.mp h
      obtain ⟨before, rest, rfl, hr, hlater⟩ := ih htail
      exact ⟨e' :: before, rest, rfl, hr, hlater⟩

/-- A trace shows the flight after each event. -/
theorem trace_shows {i : Nat} {g : Flight} {r : Response}
    (h : (f.trace events)[i]? = some (g, r)) : g = f.after (events.take (i + 1)) := by
  induction events generalizing f i with
  | nil => cases h
  | cons e events ih =>
    cases i with
    | zero => exact congrArg Prod.fst (Option.some.inj h).symm
    | succ i => exact ih h

end Record

/-! ## Events without effect -/

section Changes

variable {f : Flight} {e : Event} {events : List Event}

/-- A response that does not change the flight leaves it as it was. -/
theorem on_of_not_changes (h : (f.on e).2.changes = false) : (f.on e).1 = f := by
  cases f with
  | idle =>
    cases e with
    | requested n => cases h
    | finished => rfl
  | running m =>
    cases e with
    | requested n => rfl
    | finished => cases h

/-- **Events without effect can be struck**: the others lead to the same flight, and to what they
led to before. -/
theorem record_erased :
    f.record (f.changing events) = (f.record events).filter (·.2.changes) ∧
      f.after (f.changing events) = f.after events := by
  induction events generalizing f with
  | nil => exact ⟨rfl, rfl⟩
  | cons e events ih =>
    obtain ⟨hrecord, hafter⟩ := @ih (f.on e).1
    unfold changing at *
    rw [record_cons, after_cons]
    by_cases hchanges : (f.on e).2.changes = true
    · rw [List.filter_cons, if_pos hchanges, List.map_cons, record_cons, after_cons, hrecord,
        hafter]
      exact ⟨rfl, rfl⟩
    · have hsame := on_of_not_changes (Bool.not_eq_true _ ▸ hchanges)
      rw [hsame] at hrecord hafter ⊢
      rw [List.filter_cons, if_neg hchanges]
      exact ⟨hrecord, hafter⟩

/-- The turn that a flight is at: an idle one is started next, a running one released. -/
def turn (f : Flight) : Nat := if f.isRunning then 1 else 0

theorem byTurns_add_two (i : Nat) : byTurns (i + 2) = byTurns i := by
  unfold byTurns
  rw [Nat.add_mod_right]

/-- A change is the one whose turn it is, and then it is the turn of the other. -/
theorem on_of_changes (h : (f.on e).2.changes = true) :
    (f.on e).2 = byTurns f.turn ∧
      ∀ i, byTurns ((f.on e).1.turn + i) = byTurns (f.turn + (i + 1)) := by
  cases f with
  | idle =>
    cases e with
    | requested n =>
      have hnext (i : Nat) : 1 + i = 0 + (i + 1) := by omega
      exact ⟨rfl, fun i => congrArg byTurns (hnext i)⟩
    | finished => cases h
  | running m =>
    cases e with
    | requested n => cases h
    | finished =>
      have hnext (i : Nat) : 1 + (i + 1) = 0 + i + 2 := by omega
      exact ⟨rfl, fun i => ((congrArg byTurns (hnext i)).trans (byTurns_add_two _)).symm⟩

/-- **Starts and releases take turns.** -/
theorem changes_byTurns {i : Nat} {r : Response}
    (h : ((f.responses events).filter Response.changes)[i]? = some r) :
    r = byTurns (f.turn + i) := by
  induction events generalizing f i with
  | nil => cases h
  | cons e events ih =>
    have hcons : f.responses (e :: events) = (f.on e).2 :: (f.on e).1.responses events := rfl
    rw [hcons] at h
    by_cases hchanges : (f.on e).2.changes = true
    · obtain ⟨hturn, hnext⟩ := on_of_changes hchanges
      rw [List.filter_cons_of_pos hchanges] at h
      cases i with
      | zero =>
        cases h
        exact hturn
      | succ i => rw [ih h, hnext i]
    · have hsame := on_of_not_changes (Bool.not_eq_true _ ▸ hchanges)
      rw [List.filter_cons_of_neg hchanges, hsame] at h
      exact ih h

end Changes

/-! ## Running flights -/

section Running

variable {events : List Event} {n : Nat}

/-- **A flight goes on until it is released**, and turns all requests away. -/
theorem steady_of_unreleased (h : ∀ p ∈ (running n).record events, p.2 ≠ .released) :
    (running n).after events = .running n ∧ ∀ p ∈ (running n).record events, p.2 = .rejected := by
  induction events with
  | nil => exact ⟨rfl, fun p hp => absurd hp List.not_mem_nil⟩
  | cons e events ih =>
    obtain ⟨hfirst, hlater⟩ := List.forall_mem_cons.mp h
    cases e with
    | requested m =>
      obtain ⟨hafter, hrejected⟩ := ih hlater
      exact ⟨hafter, List.forall_mem_cons.mpr ⟨rfl, hrejected⟩⟩
    | finished => exact absurd rfl hfirst

/-- A start on record made a flight of its batch, and while it is not released it is the last
one. -/
theorem started_of_record {earlier later : List (Event × Response)}
    (h : idle.record events = earlier ++ (.requested n, .started) :: later)
    (hunreleased : ∀ p ∈ later, p.2 ≠ .released) :
    idle.after events = .running n ∧ ∀ p ∈ later, p.2 = .rejected := by
  obtain ⟨before, rest, rfl, hstarted, rfl⟩ := of_record_eq h
  rw [after_append, after_cons]
  cases hbefore : idle.after before with
  | idle =>
    rw [hbefore] at hunreleased
    exact steady_of_unreleased hunreleased
  | running m =>
    rw [hbefore] at hstarted
    cases hstarted

/-- **A sync is running if one was started and not released since.** -/
theorem running_iff :
    idle.after events = .running n ↔ ∃ earlier later,
      idle.record events = earlier ++ (.requested n, .started) :: later ∧
        ∀ p ∈ later, p.2 ≠ .released := by
  constructor
  · intro h
    -- The last event started the sync, or it was turned away by a sync that was running before.
    induction events using List.reverseRecOn with
    | nil => cases h
    | append_singleton events e ih =>
      rw [after_append] at h
      rw [record_append]
      cases hbefore : idle.after events with
      | idle =>
        rw [hbefore] at h
        cases e with
        | requested m =>
          cases h
          exact ⟨idle.record events, [], rfl, fun p hp => absurd hp List.not_mem_nil⟩
        | finished => cases h
      | running m =>
        rw [hbefore] at h
        cases e with
        | requested k =>
          cases h
          obtain ⟨earlier, later, hrecord, hunreleased⟩ := ih hbefore
          refine ⟨earlier, later ++ [(.requested k, .rejected)], ?_, ?_⟩
          · rw [hrecord, List.append_assoc]
            rfl
          · simp only [List.mem_append, List.mem_singleton]
            rintro p (hp | rfl)
            · exact hunreleased p hp
            · exact nofun
        | finished => cases h
  · rintro ⟨earlier, later, hrecord, hunreleased⟩
    exact (started_of_record hrecord hunreleased).1

end Running

/-! ## Every list of events -/

/-- What comes of a list of events that an idle flight meets. -/
structure TakesTurns (events : List Event) : Prop where
  /-- The changes are starts and releases by turns, beginning with a start. -/
  changes : ∀ i r, ((idle.responses events).filter Response.changes)[i]? = some r → r = byTurns i
  /-- After the first events a sync is running if one of them started it and none released it
  since. -/
  running : ∀ before, before <+: events → ∀ n, idle.after before = .running n ↔
    ∃ earlier later, idle.record before = earlier ++ (.requested n, .started) :: later ∧
      ∀ p ∈ later, p.2 ≠ .released
  /-- This start is the last one. -/
  last : ∀ before, before <+: events → ∀ earlier n later,
    idle.record before = earlier ++ (.requested n, .started) :: later →
      (∀ p ∈ later, p.2 ≠ .released) → ∀ p ∈ later, p.2 ≠ .started
  /-- These flights are the ones that the trace shows. -/
  shown : ∀ i f r, (idle.trace events)[i]? = some (f, r) → f = idle.after (events.take (i + 1))
  /-- A request is turned away while a sync is running. -/
  rejected : ∀ before n later m, events = before ++ .requested n :: later →
    idle.after before = .running m →
      (idle.record events)[before.length]? = some (.requested n, .rejected)
  /-- An ending is ignored while none is running. -/
  ignored : ∀ before later, events = before ++ .finished :: later → idle.after before = .idle →
    (idle.record events)[before.length]? = some (.finished, .ignored)
  /-- The events that were rejected or ignored can be struck: the others lead to the same flight,
  and to what they led to before. -/
  erased : idle.after (idle.changing events) = idle.after events ∧
    idle.record (idle.changing events) = (idle.record events).filter (·.2.changes)

/-- **Syncs take turns**, in whatever order requests and endings come. -/
theorem takesTurns (events : List Event) : TakesTurns events where
  changes i r h := by
    rw [changes_byTurns h]
    exact congrArg byTurns (Nat.zero_add i)
  running _ _ _ := running_iff
  last _ _ _ _ _ hrecord hunreleased p hp := by
    rw [(started_of_record hrecord hunreleased).2 p hp]
    exact nofun
  shown _ _ _ := trace_shows
  rejected before n later m hevents hrunning := by
    rw [hevents, record_at, hrunning]
    rfl
  ignored before later hevents hidle := by
    rw [hevents, record_at, hidle]
    rfl
  erased := ⟨record_erased.2, record_erased.1⟩

/-- Endings of syncs that never began and a request that comes too early have no effect. -/
example :
    idle.record [.finished, .requested 3, .requested 9, .finished, .finished] =
        [(.finished, .ignored), (.requested 3, .started), (.requested 9, .rejected),
          (.finished, .released), (.finished, .ignored)] ∧
      idle.changing [.finished, .requested 3, .requested 9, .finished, .finished] =
        [.requested 3, .finished] := by
  decide

end Outbox.Flight
