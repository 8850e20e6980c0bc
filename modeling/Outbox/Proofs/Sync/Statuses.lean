import Outbox.EntityStatus
import Outbox.Proofs.Remote.Search
import Outbox.Proofs.Sync.Hearing
import Mathlib.Data.List.Nodup

/-!
# The records of a sync

After a sync the client keeps a record for every entity that an action touched. A record says how
one action stands (`EntityStatus.standings`), and the records of one action are its share
(`EntityStatus.share`). Where the actions of a batch have distinct local ids, a share is one record,
and two if the action failed in spite of a conflict that it won (`EntityStatus.Share`). An action
without an entity has no records, and only a direct message can be without one.

A conflict is found by looking up an entity, so an action with a conflict has one. Records find the
entity of an action in a way of their own, which goes on where the look-up gives up; but where the
look-up finds an entity it is the same (`Action.Names.entity?`).

* `Report.Accounts.records_eq`: the records of a report that accounts for a batch, in their order.
* `Report.Accounts.share`: the share of each of its actions.
* `Syncer.Serves.exists_lookedUp`: the conflicts of a sync and the look-ups behind them.
* `Syncer.Serves.statuses`: the records of every sync.
-/

namespace Outbox

variable {a : Action} {entity : Entity}

/-! ## Entities -/

/-- An entity that can be looked up, as the records write it. -/
def Entity.ref (entity : Entity) : EntityRef := ⟨entity.kind.name, entity.id⟩

/-- **What is looked up for an action is what its records name.** -/
theorem Action.Names.entity? (h : a.Names entity) : a.entity? = some entity.ref := by
  have hkind : nonEmpty? a.payload.entityType = some entity.kind.name :=
    nonEmpty?_eq_some_iff.mpr ⟨h.kind, entity.kind.name_ne_empty⟩
  have hid : nonEmpty? a.payload.entityId = some entity.id :=
    nonEmpty?_eq_some_iff.mpr ⟨h.id, h.filled⟩
  simp [Action.entity?, hkind, hid, Entity.ref]

theorem ActionKind.entityKind?_eq_none_iff {kind : ActionKind} :
    kind.entityKind? = none ↔ kind = .sendDirectMessage := by
  cases kind <;> simp [entityKind?]

/-- **Only a direct message can be without an entity**: one whose payload names no kind. -/
theorem Action.entity?_eq_none_iff (a : Action) :
    a.entity? = none ↔ a.kind = .sendDirectMessage ∧ ∀ name ∈ a.payload.entityType, name = "" := by
  unfold entity?
  rw [Option.map_eq_none_iff, Option.or_eq_none_iff, ActionKind.entityKind?_eq_none_iff,
    nonEmpty?_eq_none_iff, and_comm]

/-! ## Standings -/

namespace EntityStatus

/-- How the action of a conflict stands because of it. -/
def standingOf (c : Conflict) : Action × Standing :=
  (c.localAction, .conflict c.kind c.resolution)

/-- The conflicts of actions that were not carried out. -/
def held (r : Report) : List Conflict :=
  r.conflicts.filter fun c => c.localAction.localId ∉ r.synced.map Action.localId

/-- How the actions of a report stand, in the order of the records. -/
def standings (r : Report) : List (Action × Standing) :=
  r.synced.map (·, .fullySynced) ++ r.failed.map (·, .failed) ++ (held r).map standingOf

/-- The record of an action that stands in some way. -/
def recordOf? (standing : Action × Standing) : Option Entry := record? standing.2 standing.1

/-- The records that an action has in a report. -/
def share (r : Report) (a : Action) : List Entry :=
  ((standings r).filter (·.1 = a)).filterMap recordOf?

theorem records_of_conflicts (r : Report) :
    r.conflicts.filterMap (conflictRecord? (r.synced.map Action.localId)) =
      (held r).filterMap (recordOf? ∘ standingOf) := by
  unfold held
  rw [List.filterMap_filter]
  refine List.filterMap_congr fun c _ => ?_
  unfold conflictRecord?
  by_cases hsynced : c.localAction.localId ∈ r.synced.map Action.localId <;>
    simp [hsynced, recordOf?, standingOf]

/-- **Each record says how one action stands.** -/
theorem records_eq (r : Report) : records r = (standings r).filterMap recordOf? := by
  simp only [records, standings, records_of_conflicts, List.filterMap_append, List.filterMap_map]
  rfl

theorem share_of_entity {r : Report} {e : EntityRef} (h : a.entity? = some e) :
    share r a = ((standings r).filter (·.1 = a)).map fun standing => ⟨e, standing.2⟩ := by
  unfold share
  rw [← List.filterMap_eq_map]
  refine List.filterMap_congr fun standing hstanding => ?_
  have ha : standing.1 = a := by simpa using (List.mem_filter.mp hstanding).2
  simp [recordOf?, record?, ha, h]

theorem share_of_no_entity {r : Report} (h : a.entity? = none) : share r a = [] := by
  unfold share
  refine List.filterMap_eq_nil_iff.mpr fun standing hstanding => ?_
  have ha : standing.1 = a := by simpa using (List.mem_filter.mp hstanding).2
  simp [recordOf?, record?, ha, h]

/-- How an action of a batch is recorded after a sync that accounts for the batch. -/
structure Share (r : Report) (a : Action) : Prop where
  /-- It was carried out, or failed, or lost its conflict. -/
  ended : a ∈ r.synced ∨ a ∈ r.failed ∨ ∃ c ∈ r.conflicts, c.localAction = a ∧ c.discards = true
  /-- Without an entity it is not recorded at all. -/
  unnamed : a.entity? = none → share r a = []
  /-- If it was carried out there is one record, whether it had a conflict or not. -/
  synced : a ∈ r.synced → ∀ e ∈ a.entity?, share r a = [⟨e, .fullySynced⟩]
  /-- If it failed without a conflict there is one record. -/
  failed : a ∈ r.failed → (∀ c ∈ r.conflicts, c.localAction ≠ a) →
    ∀ e ∈ a.entity?, share r a = [⟨e, .failed⟩]
  /-- If it failed with a conflict it had won this conflict, and there are two records. -/
  failedConflict : a ∈ r.failed → ∀ c ∈ r.conflicts, c.localAction = a →
    c.resolution = some .local ∧
      ∀ e ∈ a.entity?, share r a = [⟨e, .failed⟩, ⟨e, .conflict c.kind c.resolution⟩]
  /-- If it lost its conflict there is one record. -/
  discarded : ∀ c ∈ r.conflicts, c.localAction = a → c.discards = true →
    ∀ e ∈ a.entity?, share r a = [⟨e, .conflict c.kind c.resolution⟩]

/-! ## Standings of one action -/

section Keys

variable {α β : Type} [DecidableEq α] {l : List (α × β)} {k : α}

theorem filter_fst_of_notMem (hk : k ∉ l.map Prod.fst) : l.filter (·.1 = k) = [] := by
  refine List.filter_eq_nil_iff.mpr fun x hx heq => hk ?_
  exact List.mem_map.mpr ⟨x, hx, of_decide_eq_true heq⟩

theorem filter_fst_of_mem (hl : (l.map Prod.fst).Nodup) {x : α × β} (hx : x ∈ l) :
    l.filter (·.1 = x.1) = [x] := by
  induction l with
  | nil => cases hx
  | cons y l ih =>
    obtain ⟨hy, hl⟩ := List.nodup_cons.mp hl
    rcases List.mem_cons.mp hx with rfl | hx
    · rw [List.filter_cons_of_pos (by simp), filter_fst_of_notMem hy]
    · have hne : y.1 ≠ x.1 := fun heq => hy (heq ▸ List.mem_map_of_mem hx)
      rw [List.filter_cons_of_neg (by simpa using hne), ih hl hx]

/-- Entries are sorted by their keys. -/
theorem perm_flatMap_filter {keys : List α} (hkeys : keys.Nodup) (hl : ∀ x ∈ l, x.1 ∈ keys) :
    l.Perm (keys.flatMap fun k => l.filter (·.1 = k)) := by
  induction keys generalizing l with
  | nil =>
    rw [List.eq_nil_iff_forall_not_mem.mpr fun x hx => List.not_mem_nil (hl x hx)]
    exact List.Perm.refl _
  | cons k keys ih =>
    obtain ⟨hk, hkeys⟩ := List.nodup_cons.mp hkeys
    have hrest : (l.filter fun x => !decide (x.1 = k)).Perm
        (keys.flatMap fun k' => l.filter (·.1 = k')) := by
      refine (ih hkeys fun x hx => ?_).trans (.of_eq (List.flatMap_congr fun k' hk' => ?_))
      · obtain ⟨hx, hne⟩ := List.mem_filter.mp hx
        exact (List.mem_cons.mp (hl x hx)).resolve_left (by simpa using hne)
      · rw [List.filter_filter]
        refine List.filter_congr fun x _ => ?_
        by_cases hx : x.1 = k'
        · have hne : k' ≠ k := fun heq => hk (heq ▸ hk')
          simp [hx, hne]
        · simp [hx]
    exact (List.filter_append_perm _ l).symm.trans (hrest.append_left _)

end Keys

theorem filter_standings (r : Report) (a : Action) :
    (standings r).filter (·.1 = a) =
      (r.synced.map (·, Standing.fullySynced)).filter (·.1 = a) ++
        (r.failed.map (·, Standing.failed)).filter (·.1 = a) ++
          ((held r).map standingOf).filter (·.1 = a) := by
  unfold standings
  rw [List.filter_append, List.filter_append]

theorem filter_listed {l : List Action} {st : Standing} (hl : l.Nodup) (ha : a ∈ l) :
    (l.map (·, st)).filter (·.1 = a) = [(a, st)] :=
  filter_fst_of_mem (x := (a, st)) (by simpa [Function.comp_def] using hl) (List.mem_map_of_mem ha)

theorem filter_unlisted {l : List Action} {st : Standing} (ha : a ∉ l) :
    (l.map (·, st)).filter (·.1 = a) = [] :=
  filter_fst_of_notMem (by simpa [Function.comp_def] using ha)

end EntityStatus

/-! ## Reports that account for a batch -/

namespace Report.Accounts

open EntityStatus

variable {r : Report} {actions : List Action}

/-- Of distinct actions none ends twice. -/
theorem nodup (h : r.Accounts actions) (hids : (actions.map (·.localId)).Nodup) :
    (r.synced ++ r.failed ++ r.discarded).Nodup :=
  h.each.nodup_iff.mpr (List.Nodup.of_map _ hids)

/-- Of distinct actions none has two conflicts. -/
theorem nodup_conflicted (h : r.Accounts actions) (hids : (actions.map (·.localId)).Nodup) :
    (r.conflicts.map (·.localAction)).Nodup := by
  obtain ⟨l, hperm, hsub⟩ := h.conflicted
  exact hperm.nodup_iff.mp ((List.Nodup.of_map _ hids).sublist hsub)

theorem mem_of_conflict (h : r.Accounts actions) {c : Conflict} (hc : c ∈ r.conflicts) :
    c.localAction ∈ actions :=
  h.conflicted.subset (List.mem_map_of_mem hc)

/-- The conflicts of discarded actions are those that discard. -/
theorem discarded_iff (h : r.Accounts actions) (hids : (actions.map (·.localId)).Nodup)
    {c : Conflict} (hc : c ∈ r.conflicts) :
    c.localAction ∈ r.discarded ↔ c.discards = true := by
  constructor
  · intro hdiscarded
    obtain ⟨c', hc', hlocal⟩ := List.mem_map.mp hdiscarded
    obtain ⟨hc', hdiscards⟩ := List.mem_filter.mp hc'
    rwa [List.inj_on_of_nodup_map (h.nodup_conflicted hids) hc' hc hlocal] at hdiscards
  · exact fun hdiscards => List.mem_map_of_mem (List.mem_filter.mpr ⟨hc, hdiscards⟩)

/-- Of distinct actions none ends in two ways. -/
theorem disjoint (h : r.Accounts actions) (hids : (actions.map (·.localId)).Nodup) :
    r.synced.Disjoint r.failed ∧ r.synced.Disjoint r.discarded ∧ r.failed.Disjoint r.discarded := by
  obtain ⟨hends, -, hlost⟩ := List.nodup_append'.mp (h.nodup hids)
  obtain ⟨-, -, hfailed⟩ := List.nodup_append'.mp hends
  obtain ⟨hsynced, hfail⟩ := List.disjoint_append_left.mp hlost
  exact ⟨hfailed, hsynced, hfail⟩

/-- **What is held back was discarded or has failed.** -/
theorem held_eq (h : r.Accounts actions) (hids : (actions.map (·.localId)).Nodup) :
    held r = r.conflicts.filter fun c =>
      c.localAction ∈ r.discarded ∨ c.localAction ∈ r.failed := by
  obtain ⟨hfailed, hlost, -⟩ := h.disjoint hids
  refine List.filter_congr fun c hc => ?_
  have hmem := h.mem_of_conflict hc
  rw [decide_eq_decide]
  constructor
  · intro hunsynced
    have hnot : c.localAction ∉ r.synced := fun hsynced => hunsynced (List.mem_map_of_mem hsynced)
    have hsplit := h.each.mem_iff.mpr hmem
    simp only [List.mem_append, hnot, false_or] at hsplit
    exact hsplit.symm
  · intro hheld hsynced
    -- The local ids tell the actions of the batch apart.
    obtain ⟨b, hb, hid⟩ := List.mem_map.mp hsynced
    have hbatch := h.each.mem_iff.mp (List.mem_append_left _ (List.mem_append_left _ hb))
    rw [List.inj_on_of_nodup_map hids hbatch hmem hid] at hb
    rcases hheld with hdiscarded | hfail
    · exact hlost hb hdiscarded
    · exact hfailed hb hfail

/-- **The records of a report, in their order.** -/
theorem records_eq (h : r.Accounts actions) (hids : (actions.map (·.localId)).Nodup) :
    records r = r.synced.filterMap (record? .fullySynced) ++ r.failed.filterMap (record? .failed) ++
      (r.conflicts.filter fun c =>
        c.localAction ∈ r.discarded ∨ c.localAction ∈ r.failed).filterMap
          fun c => record? (.conflict c.kind c.resolution) c.localAction := by
  unfold records
  rw [records_of_conflicts, h.held_eq hids]
  rfl

/-- **The records are the shares of the actions.** -/
theorem records_perm (h : r.Accounts actions) (hids : (actions.map (·.localId)).Nodup) :
    (records r).Perm (actions.flatMap (EntityStatus.share r)) := by
  have hactions : ∀ standing ∈ standings r, standing.1 ∈ actions := by
    intro standing hstanding
    have hlisted {a : Action} (ha : a ∈ r.synced ++ r.failed) : a ∈ actions :=
      h.each.mem_iff.mp (List.mem_append_left _ ha)
    rcases List.mem_append.mp hstanding with hstanding | hstanding
    · rcases List.mem_append.mp hstanding with hstanding | hstanding
      · obtain ⟨a, ha, rfl⟩ := List.mem_map.mp hstanding
        exact hlisted (List.mem_append_left _ ha)
      · obtain ⟨a, ha, rfl⟩ := List.mem_map.mp hstanding
        exact hlisted (List.mem_append_right _ ha)
    · obtain ⟨c, hc, rfl⟩ := List.mem_map.mp hstanding
      exact h.mem_of_conflict (List.mem_filter.mp hc).1
  have hsorted := (perm_flatMap_filter (List.Nodup.of_map _ hids) hactions).filterMap recordOf?
  rw [EntityStatus.records_eq]
  rwa [List.filterMap_flatMap] at hsorted

/-- The conflict of an action that is held back is its only one. -/
theorem filter_held (h : r.Accounts actions) (hids : (actions.map (·.localId)).Nodup)
    {c : Conflict} (hc : c ∈ held r) :
    ((held r).map standingOf).filter (·.1 = c.localAction) = [standingOf c] := by
  have hnodup : (((held r).map standingOf).map Prod.fst).Nodup := by
    rw [List.map_map]
    exact (h.nodup_conflicted hids).sublist (List.filter_sublist.map _)
  exact filter_fst_of_mem hnodup (List.mem_map_of_mem hc)

/-- **The share of each action.** -/
theorem share (h : r.Accounts actions) (hids : (actions.map (·.localId)).Nodup)
    (hlone : ∀ c ∈ r.conflicts, c.Lone actions) (ha : a ∈ actions) : Share r a := by
  obtain ⟨hfailed, hlost, hkept⟩ := h.disjoint hids
  obtain ⟨hends, -, -⟩ := List.nodup_append'.mp (h.nodup hids)
  obtain ⟨hsynced, hfail, -⟩ := List.nodup_append'.mp hends
  have hheld {c : Conflict} (hc : c ∈ r.conflicts)
      (hunsynced : c.localAction ∈ r.discarded ∨ c.localAction ∈ r.failed) : c ∈ held r := by
    rw [h.held_eq hids]
    exact List.mem_filter.mpr ⟨hc, decide_eq_true hunsynced⟩
  have hnone (hunheld : ∀ c ∈ held r, c.localAction ≠ a) :
      ((held r).map standingOf).filter (·.1 = a) = [] := by
    refine filter_fst_of_notMem fun hmem => ?_
    rw [List.map_map] at hmem
    obtain ⟨c, hc, hlocal⟩ := List.mem_map.mp hmem
    exact hunheld c hc hlocal
  exact
    { ended := by
        have hsplit := h.each.mem_iff.mpr ha
        simp only [List.mem_append, or_assoc] at hsplit
        refine hsplit.imp_right (Or.imp_right fun hdiscarded => ?_)
        obtain ⟨c, hc, hlocal⟩ := List.mem_map.mp hdiscarded
        obtain ⟨hc, hdiscards⟩ := List.mem_filter.mp hc
        exact ⟨c, hc, hlocal, hdiscards⟩
      unnamed := share_of_no_entity
      synced := by
        intro hmem e he
        have hunheld : ∀ c ∈ held r, c.localAction ≠ a := by
          rintro c hc rfl
          rw [h.held_eq hids] at hc
          rcases of_decide_eq_true (List.mem_filter.mp hc).2 with hdiscarded | hfails
          · exact hlost hmem hdiscarded
          · exact hfailed hmem hfails
        rw [share_of_entity he, filter_standings, filter_listed hsynced hmem,
          filter_unlisted (hfailed hmem), hnone hunheld]
        rfl
      failed := by
        intro hmem hfree e he
        rw [share_of_entity he, filter_standings, filter_unlisted fun hs => hfailed hs hmem,
          filter_listed hfail hmem, hnone fun c hc => hfree c (List.mem_filter.mp hc).1]
        rfl
      failedConflict := by
        rintro hmem c hc rfl
        have hdiscards : c.discards ≠ true := fun hdiscards =>
          hkept hmem ((h.discarded_iff hids hc).mpr hdiscards)
        refine ⟨(hlone c hc).resolution_of_not_discards hdiscards, fun e he => ?_⟩
        rw [share_of_entity he, filter_standings, filter_unlisted fun hs => hfailed hs hmem,
          filter_listed hfail hmem, h.filter_held hids (hheld hc (Or.inr hmem))]
        rfl
      discarded := by
        rintro c hc rfl hdiscards e he
        have hmem := (h.discarded_iff hids hc).mpr hdiscards
        rw [share_of_entity he, filter_standings, filter_unlisted fun hs => hlost hs hmem,
          filter_unlisted fun hf => hkept hf hmem, h.filter_held hids (hheld hc (Or.inl hmem))]
        rfl }

end Report.Accounts

/-! ## Syncs -/

namespace Syncer

variable {σ : Type} {remote : Remote σ} {config : Config} {actions : List Action} {s : Syncer σ}
  {moves : List Move} {run : Run} {shared : Shared σ}

/-- In the course of a sync the entity that an action names was looked up, and the answer was a time
after the action. -/
structure LookedUp (remote : Remote σ) (config : Config) (actions : List Action) (s : Syncer σ)
    (moves : List Move) (a : Action) (entity : Entity) : Prop where
  named : a.Names entity
  answered : ∃ i t, (entity, .value (some t)) ∈ s.lookups remote config actions moves i ∧
    a.createdAt < t

/-- What the records of a sync say. -/
structure Statuses (remote : Remote σ) (config : Config) (actions : List Action) (s : Syncer σ)
    (moves : List Move) (run : Run) : Prop where
  /-- First come the actions that were carried out, then those that failed, and then the conflicts
  of actions that were discarded or failed. -/
  records : EntityStatus.records run.report =
    run.report.synced.filterMap (EntityStatus.record? .fullySynced) ++
      run.report.failed.filterMap (EntityStatus.record? .failed) ++
        (run.report.conflicts.filter fun c =>
          c.localAction ∈ run.report.discarded ∨ c.localAction ∈ run.report.failed).filterMap
            fun c => EntityStatus.record? (.conflict c.kind c.resolution) c.localAction
  /-- Each conflict has a record to give, of the entity that was looked up. -/
  conflicts : ∀ c ∈ run.report.conflicts, ∃ entity,
    LookedUp remote config actions s moves c.localAction entity ∧
      EntityStatus.record? (.conflict c.kind c.resolution) c.localAction =
        some ⟨entity.ref, .conflict c.kind c.resolution⟩
  /-- The records are those of the submitted actions. -/
  submitted : (EntityStatus.records run.report).Perm
    (actions.flatMap (EntityStatus.share run.report))
  /-- Each action has its share. -/
  shares : ∀ a ∈ actions, EntityStatus.Share run.report a
  /-- Only direct messages that name no kind of entity are not recorded. -/
  unnamed : ∀ a : Action, a.entity? = none ↔
    a.kind = .sendDirectMessage ∧ ∀ name ∈ a.payload.entityType, name = ""

/-- A report is made up of one finding about each action. -/
theorem Serves.exists_found (h : s.Serves remote config actions moves run shared)
    (hwhole : ∀ tally, Task.brokenDown tally ∉ run.tasks) :
    ∃ found, run.report = .ofFindings found ∧ (∀ f ∈ found, Answers.any.Explains f) ∧
      (found.map (·.action)).Perm actions := by
  obtain ⟨found, hreport, hexplained, hactions⟩ :=
    Run.report_of_follow? (remote.obeys_any config.limits) h.moved trivial h.done hwhole
  refine ⟨found, hreport, hexplained, ?_⟩
  rw [hactions]
  exact TopicQueue.linedUp_perm config.fallbackTopic actions

/-- A conflict that is reported comes of a look-up. -/
theorem Serves.exists_lookedUp (h : s.Serves remote config actions moves run shared)
    (hwhole : ∀ tally, Task.brokenDown tally ∉ run.tasks) :
    ∀ c ∈ run.report.conflicts, ∃ entity,
      LookedUp remote config actions s moves c.localAction entity := by
  intro c hc
  obtain ⟨i, hearing, -, -, hconflict, hlooked⟩ := h.exists_hearing c hc
  obtain ⟨found, hreport, hexplained, -⟩ := h.exists_found hwhole
  rw [hreport] at hc
  obtain ⟨f, hf, hfound⟩ := List.mem_filterMap.mp hc
  have hlocal := (hexplained f hf).finds.localAction c hfound
  obtain ⟨entity, htarget⟩ := (hexplained f hf).finds.exists_target c hfound
  rw [← hlocal] at htarget
  obtain ⟨rfl, t, htime, hlater⟩ := Hearing.conflict?_eq_some_iff.mp hconflict
  have hlook : hearing.look? = some (entity, .value (some t)) := by
    have hasked : hearing.action.lookupTarget? = some entity := htarget
    simp [Hearing.look?, hasked, News.answer?_of_time? htime]
  exact ⟨entity, Action.lookupTarget?_eq_some_iff.mp htarget, i, t, hlooked _ hlook, hlater⟩

/-- **The records of every sync** of actions with distinct local ids: they account for each action,
whatever the remote system answers and in whatever order the tasks go on. -/
theorem Serves.statuses (h : s.Serves remote config actions moves run shared)
    (hwhole : ∀ tally, Task.brokenDown tally ∉ run.tasks)
    (hids : (actions.map (·.localId)).Nodup) :
    Statuses remote config actions s moves run := by
  obtain ⟨found, hreport, hexplained, hperm⟩ := h.exists_found hwhole
  have haccounts : run.report.Accounts actions := hreport ▸ accounts_ofFindings hexplained hperm
  exact
    { records := haccounts.records_eq hids
      conflicts := by
        intro c hc
        obtain ⟨entity, hlooked⟩ := h.exists_lookedUp hwhole c hc
        refine ⟨entity, hlooked, ?_⟩
        rw [EntityStatus.record?, hlooked.named.entity?]
        rfl
      submitted := haccounts.records_perm hids
      shares := fun a ha => haccounts.share hids h.lone ha
      unnamed := Action.entity?_eq_none_iff }

/-- A like of a post that was modified after it, made at the epoch. -/
def sampleWon : Action :=
  .queued "ann" .likePost ((Payload.ofPost "p3").about "post" "p3") ⟨"a5"⟩ .epoch

/-- A direct message that names no kind of entity. -/
def sampleMessage : Action := .queued "ann" .sendDirectMessage .empty ⟨"a6"⟩ .epoch

/-- One action is carried out, one loses its conflict, one wins it, and one has no entity. -/
def mixedBatch : List Action := [sampleLike, sampleEarly, sampleWon, sampleMessage]

/-- Two posts were modified, and likes of the second one are refused. -/
def mixedScript : ScriptedRemote :=
  { sampleScript.modified ⟨.post, "p3"⟩ ⟨1, by decide⟩ with refusedPosts := ["p3"] }

/-- One topic, from its start to its end. -/
def mixedMoves : List Move := .start 0 :: List.replicate 13 (.advance 0)

def mixedRun : Run where
  batch := 4
  tasks := [.finished ⟨[sampleLike],
    [(Conflict.fresh sampleEarly .timestamp).resolve .remote,
      (Conflict.fresh sampleWon .timestamp).resolve .local], [sampleWon, sampleMessage], 4⟩]
  places := none

def mixedShared : Shared ScriptedRemote where
  progress := ⟨4, 4, 1, 2, 2⟩
  remote := { mixedScript with
    calls := [.likePost "p1", .likePost "p3"], lookups := [⟨.post, "p2"⟩, ⟨.post, "p3"⟩] }

/-- The like that won its conflict and was refused has two records, and the message has none. -/
theorem statuses_sample :
    (start mixedScript).Serves ScriptedRemote.remote .default mixedBatch mixedMoves mixedRun
        mixedShared ∧
      (∀ tally, Task.brokenDown tally ∉ mixedRun.tasks) ∧
      (mixedBatch.map (·.localId)).Nodup ∧
      Statuses ScriptedRemote.remote .default mixedBatch (start mixedScript) mixedMoves mixedRun ∧
      EntityStatus.records mixedRun.report =
        [⟨⟨"post", "p1"⟩, .fullySynced⟩, ⟨⟨"post", "p3"⟩, .failed⟩,
          ⟨⟨"post", "p2"⟩, .conflict .timestamp (some .remote)⟩,
          ⟨⟨"post", "p3"⟩, .conflict .timestamp (some .local)⟩] := by
  have hserves : (start mixedScript).Serves ScriptedRemote.remote .default mixedBatch mixedMoves
      mixedRun mixedShared := ⟨⟨rfl, _, rfl, by decide +kernel⟩, rfl⟩
  have hwhole : ∀ tally, Task.brokenDown tally ∉ mixedRun.tasks := by
    intro tally h
    simp [mixedRun] at h
  have hids : (mixedBatch.map (·.localId)).Nodup := by decide +kernel
  exact ⟨hserves, hwhole, hids, hserves.statuses hwhole hids, by decide +kernel⟩

end Syncer

end Outbox
