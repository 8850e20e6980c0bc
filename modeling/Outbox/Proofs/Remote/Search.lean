import Outbox.Proofs.Remote.Limit
import Outbox.Proofs.Sync.Request

/-!
# The search for a conflict

A search asks the remote system once, about the entity that the payload of the action names, and
not at all if the payload names none (`Action.Names`). It finds a conflict where the answer comes in
time and is a time after the action. Whatever else comes of the look-up means that there is none, be
it nothing, an error, or an answer that is too late. So nothing that a remote system does makes a
search fail, short of breaking down the one who asks (`Remote.Searched`).

To count what is asked the remote system is watched: it answers as before, and its requests are
noted (`Remote.watched`).

* `Action.lookupTarget?_eq_some_iff`: the entity that is looked up is the one that is named.
* `Turn.inTime_beginRequest_iff`: an answer is in time unless it comes after the limit.
* `Remote.findConflict_learns`: a search ends with the answer that is learnt, if one is.
* `Remote.findConflict_searched`: what every search does.
* `Task.goesOn_findConflict`: a task of a sync goes on with what a search finds.
-/

namespace Outbox

variable {σ : Type} {a : Action} {entity : Entity}

/-! ## The entity -/

/-- The payload of an action names an entity: its kind by the written name, and an id that is not
empty. -/
structure Action.Names (a : Action) (entity : Entity) : Prop where
  kind : a.payload.entityType = some entity.kind.name
  id : a.payload.entityId = some entity.id
  filled : entity.id ≠ ""

theorem EntityKind.name_ne_empty (k : EntityKind) : k.name ≠ "" := by cases k <;> decide

/-- **What is looked up is the entity that the payload names.** -/
theorem Action.lookupTarget?_eq_some_iff : a.lookupTarget? = some entity ↔ a.Names entity := by
  unfold lookupTarget?
  constructor
  · intro h
    obtain ⟨written, hwritten, h⟩ := Option.bind_eq_some_iff.mp h
    obtain ⟨id, hid, h⟩ := Option.bind_eq_some_iff.mp h
    obtain ⟨kind, hkind, h⟩ := Option.bind_eq_some_iff.mp h
    cases h
    obtain ⟨hwritten, -⟩ := nonEmpty?_eq_some_iff.mp hwritten
    obtain ⟨hid, hfilled⟩ := nonEmpty?_eq_some_iff.mp hid
    exact ⟨EntityKind.ofName?_eq_some hkind ▸ hwritten, hid, hfilled⟩
  · rintro ⟨hkind, hid, hfilled⟩
    have hwritten := nonEmpty?_eq_some_iff.mpr ⟨hkind, entity.kind.name_ne_empty⟩
    have hnamed := nonEmpty?_eq_some_iff.mpr ⟨hid, hfilled⟩
    simp only [hwritten, hnamed, EntityKind.ofName?_name, Option.bind_eq_bind, Option.bind_some]
    rfl

theorem Action.Names.unique {other : Entity} (h : a.Names entity) (hother : a.Names other) :
    other = entity := by
  have htarget := lookupTarget?_eq_some_iff.mpr h
  rw [lookupTarget?_eq_some_iff.mpr hother] at htarget
  exact Option.some.inj htarget

theorem Action.lookupTarget?_eq_none_iff :
    a.lookupTarget? = none ↔ ∀ entity, ¬ a.Names entity := by
  simp only [Option.eq_none_iff_forall_ne_some, ne_eq, lookupTarget?_eq_some_iff]

/-! ## The limit -/

/-- An answer after a delay comes no later than a limit allows. An answer that is there at once
does, and any answer does without a limit. -/
def InTime (delay limit : Option Nat) : Prop := ∀ d ∈ delay, ∀ l ∈ limit, d ≤ l

instance (delay limit : Option Nat) : Decidable (InTime delay limit) :=
  inferInstanceAs (Decidable (∀ d ∈ delay, ∀ l ∈ limit, d ≤ l))

theorem InTime.at_once (limit : Option Nat) : InTime none limit :=
  fun d hd => absurd hd (Option.not_mem_none d)

theorem InTime.unlimited (delay : Option Nat) : InTime delay none :=
  fun _ _ l hl => absurd hl (Option.not_mem_none l)

/-- Who begins a request is not cut off before the answer, whatever is left of the turn. -/
theorem Turn.not_cut_off_beginRequest {turn : Turn} :
    ¬ (turn.beginRequest.waits = 0 ∧ turn.beginRequest.begun = true) := by
  rintro ⟨hwaits, hbegun⟩
  exact absurd hwaits (bne_iff_ne.mp hbegun)

section Limit

variable {delay limit : Option Nat}

/-- **An answer is in time unless it comes after the limit**, whatever is left of the turn. -/
theorem Turn.inTime_beginRequest_iff (turn : Turn) :
    (turn.beginRequest.wait delay limit).inTime = true ↔ InTime delay limit := by
  rcases delay with _ | d
  · exact iff_of_true rfl (.at_once limit)
  · unfold wait
    simp only
    rw [if_neg fun h => not_cut_off_beginRequest ⟨h.1, h.2.1⟩]
    rcases limit with _ | l
    · exact iff_of_true rfl (.unlimited (some d))
    · simp [tooLate, InTime]

/-- No wait is longer than its limit. -/
theorem Turn.millis_wait_le {turn : Turn} {l : Nat} : (turn.wait delay (some l)).millis ≤ l := by
  obtain ⟨hle, -, hmillis⟩ | ⟨-, -, hmillis⟩ := turn.wait_limited delay l
  · exact Nat.le_trans (Nat.le_of_eq hmillis) hle
  · exact Nat.le_of_eq hmillis

end Limit

/-! ## The search -/

namespace Conflict

/-- A conflict as it is found for an action: a later change of its entity, with nothing known of who
made it, and nothing settled. -/
structure FoundFor (a : Action) (c : Conflict) : Prop where
  localAction : c.localAction = a
  kind : c.kind = .timestamp
  remoteAction : c.remoteAction = none
  resolution : c.resolution = none
  mergedData : c.mergedData = none

theorem foundFor_iff {c : Conflict} : c.FoundFor a ↔ c = .fresh a .timestamp := by
  constructor
  · intro h
    obtain ⟨localAction, remoteAction, kind, resolution, mergedData⟩ := c
    obtain ⟨rfl, rfl, rfl, rfl, rfl⟩ := h
    rfl
  · rintro rfl
    exact ⟨rfl, rfl, rfl, rfl, rfl⟩

end Conflict

namespace Detection

/-- How a search ends with an answer. -/
def ofAnswer (a : Action) (answer : Answer (Option Timestamp)) : Detection :=
  if answer = .breakdown then .brokeDown else .done (Conflict.ofModification? a answer.time?)

variable {answer : Answer (Option Timestamp)} {c : Conflict}

theorem ofAnswer_eq_some_iff : ofAnswer a answer = .done (some c) ↔
    c.FoundFor a ∧ ∃ t, answer = .value (some t) ∧ a.createdAt < t := by
  unfold ofAnswer
  rw [Conflict.foundFor_iff]
  cases answer with
  | value t => simp [Answer.time?, Conflict.ofModification?_eq_some_iff]
  | error e => simp [Answer.time?, Conflict.ofModification?]
  | breakdown => simp

theorem ofAnswer_eq_brokeDown_iff : ofAnswer a answer = .brokeDown ↔ answer = .breakdown := by
  by_cases hanswer : answer = .breakdown <;> simp [ofAnswer, hanswer]

end Detection

namespace Remote

/-- A remote system whose requests are noted. -/
def watched (remote : Remote σ) : Remote (σ × List Request) where
  lookup s entity :=
    let (reply, after) := remote.lookup s.1 entity
    (reply, after, s.2 ++ [.lookup entity])
  call s call :=
    let (reply, after) := remote.call s.1 call
    (reply, after, s.2 ++ [.call call])

/-- What a search asks the remote system. -/
def searched (remote : Remote σ) (limit : Option Nat) (a : Action) (turn : Turn) (s : σ) :
    List Request :=
  (remote.watched.findConflict limit a turn (s, [])).state.2

/-- The action names an entity, and the look-up of this entity gets an answer in time. -/
def Learns (remote : Remote σ) (limit : Option Nat) (a : Action) (s : σ)
    (answer : Answer (Option Timestamp)) : Prop :=
  ∃ entity, a.Names entity ∧ (remote.lookup s entity).1.answer = answer ∧
    InTime (remote.lookup s entity).1.delay limit

/-- What every search for a conflict does. -/
structure Searched (remote : Remote σ) (limit : Option Nat) (a : Action) (turn : Turn) (s : σ) :
    Prop where
  /-- The entity that the action names is looked up, once, and nothing else is asked. -/
  asked : ∀ entity, a.Names entity → remote.searched limit a turn s = [.lookup entity]
  /-- Nothing is asked for an action that names no entity. -/
  unasked : (∀ entity, ¬ a.Names entity) → remote.searched limit a turn s = []
  /-- To note what is asked changes nothing else. -/
  watched : remote.watched.findConflict limit a turn (s, []) =
    { remote.findConflict limit a turn s with
      state := ((remote.findConflict limit a turn s).state, remote.searched limit a turn s) }
  /-- A conflict is found just where the answer comes in time and is a time after the action, and
  nothing is settled about it. -/
  found : ∀ c, (remote.findConflict limit a turn s).result = .done (some c) ↔
    c.FoundFor a ∧ ∃ t, remote.Learns limit a s (.value (some t)) ∧ a.createdAt < t
  /-- Only a breakdown of the one who asks keeps a search from its end. -/
  brokeDown : (remote.findConflict limit a turn s).result = .brokeDown ↔
    remote.Learns limit a s .breakdown
  /-- Whatever else comes of the look-up, there is no conflict. -/
  failsOpen : ¬ remote.Learns limit a s .breakdown →
    (∀ t, remote.Learns limit a s (.value (some t)) → t ≤ a.createdAt) →
      (remote.findConflict limit a turn s).result = .done none
  /-- A search takes no longer than the limit. -/
  bounded : ∀ l ∈ limit, (remote.findConflict limit a turn s).elapsed ≤ l

section Search

variable {remote : Remote σ} {limit : Option Nat} {turn : Turn} {s : σ}

/-- A search goes by one reply, and only if it is in time. -/
theorem findConflict_of_names (hnames : a.Names entity) :
    remote.findConflict limit a turn s =
      let reply := (remote.lookup s entity).1
      let wait := turn.beginRequest.wait reply.delay limit
      ⟨if InTime reply.delay limit then .ofAnswer a reply.answer else .done none,
        wait.millis, wait.turn, (remote.lookup s entity).2⟩ := by
  unfold findConflict Detection.ofAnswer
  by_cases htime : InTime (remote.lookup s entity).1.delay limit
  · have hwait := turn.inTime_beginRequest_iff.mpr htime
    simp only [Action.lookupTarget?_eq_some_iff.mpr hnames, hwait, htime, if_true]
    cases (remote.lookup s entity).1.answer <;> rfl
  · have hwait := mt turn.inTime_beginRequest_iff.mp htime
    simp only [Action.lookupTarget?_eq_some_iff.mpr hnames, hwait, htime, if_false]
    rfl

/-- Without an entity there is nothing to wait for. -/
theorem findConflict_of_unnamed (hnames : ∀ entity, ¬ a.Names entity) :
    remote.findConflict limit a turn s = ⟨.done none, 0, turn, s⟩ := by
  unfold findConflict
  rw [Action.lookupTarget?_eq_none_iff.mpr hnames]
  rfl

theorem searched_of_names (hnames : a.Names entity) :
    remote.searched limit a turn s = [.lookup entity] := by
  unfold searched
  rw [findConflict_of_names hnames]
  rfl

theorem searched_of_unnamed (hnames : ∀ entity, ¬ a.Names entity) :
    remote.searched limit a turn s = [] := by
  unfold searched
  rw [findConflict_of_unnamed hnames]

theorem watched_findConflict :
    remote.watched.findConflict limit a turn (s, []) =
      { remote.findConflict limit a turn s with
        state :=
          ((remote.findConflict limit a turn s).state, remote.searched limit a turn s) } := by
  by_cases hnamed : ∃ entity, a.Names entity
  · obtain ⟨entity, hnames⟩ := hnamed
    rw [searched_of_names hnames, findConflict_of_names hnames, findConflict_of_names hnames]
    rfl
  · have hnames := not_exists.mp hnamed
    rw [searched_of_unnamed hnames, findConflict_of_unnamed hnames, findConflict_of_unnamed hnames]

/-- One answer at most is learnt. -/
theorem Learns.unique {answer other : Answer (Option Timestamp)}
    (h : remote.Learns limit a s answer) (hother : remote.Learns limit a s other) :
    other = answer := by
  obtain ⟨entity, hnames, rfl, -⟩ := h
  obtain ⟨entity', hnames', rfl, -⟩ := hother
  rw [hnames.unique hnames']

/-- **A search ends with the answer that is learnt**, and without a conflict if none is. -/
theorem findConflict_learns (remote : Remote σ) (limit : Option Nat) (a : Action) (turn : Turn)
    (s : σ) :
    (∃ answer, remote.Learns limit a s answer ∧
        (remote.findConflict limit a turn s).result = .ofAnswer a answer) ∨
      (∀ answer, ¬ remote.Learns limit a s answer) ∧
        (remote.findConflict limit a turn s).result = .done none := by
  by_cases hnamed : ∃ entity, a.Names entity
  · obtain ⟨entity, hnames⟩ := hnamed
    rw [findConflict_of_names hnames]
    by_cases htime : InTime (remote.lookup s entity).1.delay limit
    · exact Or.inl ⟨_, ⟨entity, hnames, rfl, htime⟩, if_pos htime⟩
    · refine Or.inr ⟨?_, if_neg htime⟩
      rintro answer ⟨other, hother, -, hlearnt⟩
      exact htime (hnames.unique hother ▸ hlearnt)
  · have hnames := not_exists.mp hnamed
    rw [findConflict_of_unnamed hnames]
    exact Or.inr ⟨fun answer ⟨entity, hentity, _⟩ => hnames entity hentity, rfl⟩

theorem result_eq_some_iff {c : Conflict} :
    (remote.findConflict limit a turn s).result = .done (some c) ↔
      c.FoundFor a ∧ ∃ t, remote.Learns limit a s (.value (some t)) ∧ a.createdAt < t := by
  obtain ⟨answer, hlearns, hresult⟩ | ⟨hnone, hresult⟩ :=
    findConflict_learns remote limit a turn s
  · rw [hresult, Detection.ofAnswer_eq_some_iff]
    refine and_congr_right fun _ => exists_congr fun t => and_congr_left fun _ => ?_
    exact ⟨fun hanswer => hanswer ▸ hlearns, fun hvalue => hvalue.unique hlearns⟩
  · rw [hresult]
    simp [hnone]

theorem result_eq_brokeDown_iff :
    (remote.findConflict limit a turn s).result = .brokeDown ↔
      remote.Learns limit a s .breakdown := by
  obtain ⟨answer, hlearns, hresult⟩ | ⟨hnone, hresult⟩ :=
    findConflict_learns remote limit a turn s
  · rw [hresult, Detection.ofAnswer_eq_brokeDown_iff]
    exact ⟨fun hanswer => hanswer ▸ hlearns, fun hbreakdown => hbreakdown.unique hlearns⟩
  · rw [hresult]
    simp [hnone]

theorem elapsed_findConflict_le {l : Nat} :
    (remote.findConflict (some l) a turn s).elapsed ≤ l := by
  by_cases hnamed : ∃ entity, a.Names entity
  · obtain ⟨entity, hnames⟩ := hnamed
    rw [findConflict_of_names hnames]
    exact Turn.millis_wait_le
  · rw [findConflict_of_unnamed (not_exists.mp hnamed)]
    exact Nat.zero_le l

end Search

/-- **Every search asks once at most, finds just the conflicts that are there, and fails open.** -/
theorem findConflict_searched (remote : Remote σ) (limit : Option Nat) (a : Action) (turn : Turn)
    (s : σ) : remote.Searched limit a turn s where
  asked _ := searched_of_names
  unasked := searched_of_unnamed
  watched := watched_findConflict
  found _ := result_eq_some_iff
  brokeDown := result_eq_brokeDown_iff
  failsOpen hunbroken hearlier := by
    cases hresult : (remote.findConflict limit a turn s).result with
    | brokeDown => exact absurd (result_eq_brokeDown_iff.mp hresult) hunbroken
    | done conflict =>
      rcases conflict with _ | c
      · rfl
      · obtain ⟨-, t, hlearns, hlater⟩ := result_eq_some_iff.mp hresult
        exact absurd hlater (Int.not_lt.mpr (hearlier t hlearns))
  bounded l hl := by
    cases hl
    exact elapsed_findConflict_le

/-- An answer right at the limit counts, and one that comes later does not. -/
example :
    let payload := (Payload.ofPost "p").about "post" "p"
    let a := Action.queued "ann" .likePost payload ⟨"a1"⟩ ⟨-9, by decide⟩
    let script := { ScriptedRemote.empty.modified ⟨.post, "p"⟩ .epoch with lookupDelay := some 20 }
    (ScriptedRemote.remote.findConflict (some 20) a .full script).result =
        .done (some (.fresh a .timestamp)) ∧
      (ScriptedRemote.remote.findConflict (some 19) a .full script).result = .done none := by
  decide +kernel

end Remote

/-! ## Searches in a sync -/

namespace Task

/-- How a task goes on after a search. -/
def afterSearch (a : Action) (queue : List Action) (tally : Report) : Detection → Stride
  | .done conflict => settle a conflict queue tally
  | .brokeDown => ⟨.brokenDown tally, none⟩

variable {remote : Remote σ} {limits : Limits} {queue : List Action} {tally : Report}

/-- A task looks nothing up for an action that names no entity. -/
theorem takeUp_of_unnamed (hnames : ∀ entity, ¬ a.Names entity) :
    takeUp a queue tally = settle a none queue { tally with processed := tally.processed + 1 } := by
  unfold takeUp
  rw [Action.lookupTarget?_eq_none_iff.mpr hnames]

/-- A task looks up the entity that an action names. -/
theorem takeUp_of_names (hnames : a.Names entity) :
    takeUp a queue tally =
      ⟨.active (.lookingUp a entity none) queue { tally with processed := tally.processed + 1 },
        none⟩ := by
  unfold takeUp
  rw [Action.lookupTarget?_eq_some_iff.mpr hnames]

/-- **A task goes on with what a search finds**: with the answer if it is in time, and without it if
it is not. -/
theorem goesOn_findConflict (hnames : a.Names entity) (turn : Turn) (s : σ) :
    let reply := (remote.lookup s entity).1
    let task := Task.active (.lookingUp a entity (some reply)) queue tally
    let stride := afterSearch a queue tally (remote.findConflict limits.lookup a turn s).result
    if InTime reply.delay limits.lookup then
      ∀ s', task.advance? remote s' = some (stride, s')
    else task.expire? limits = some stride := by
  rw [Remote.findConflict_of_names hnames]
  generalize (remote.lookup s entity).1 = reply
  obtain ⟨answer, delay⟩ := reply
  by_cases htime : InTime delay limits.lookup
  · simp only [htime, if_true]
    intro s'
    cases answer <;> rfl
  · -- Only what has a limit can come too late.
    have hlimit : limits.lookup.isSome = true :=
      Option.isSome_iff_ne_none.mpr fun hnone => htime (hnone ▸ .unlimited delay)
    simp only [htime, if_false, expire?, hlimit, if_true]
    rfl

end Task
end Outbox
