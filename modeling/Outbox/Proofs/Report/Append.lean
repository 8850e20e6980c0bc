import Outbox.Report
import Mathlib.Algebra.Ring.Nat

/-!
# Reports of parts add up

Reports are appended one after the other (`Report.concat`). That puts their lists behind each other
and adds their counts, as far as a word can count, and it makes no difference in which groups they
are appended (`Report.Grouping`).

The actions that are counted and in neither list add up as well, but for another reason: taking away
stops at zero, so the lists of a report must not be longer than it counts (`Report.Counted`), and no
sum may be too large for a word.

* `Report.concat_eq`: the lists and the count of the whole.
* `Report.lost_append`: what is lost in two parts.
* `Report.Grouping.total_eq`: all groupings agree.
* `Report.addsUp`: what holds of reports that count their actions.
-/

namespace Outbox.Report

/-! ## Appending -/

theorem append_assoc (r other more : Report) :
    (r.append other).append more = r.append (other.append more) := by
  simp only [append, List.append_assoc, UInt64.add_assoc]

theorem empty_append (r : Report) : empty.append r = r := by
  simp [append, empty]

theorem append_empty (r : Report) : r.append .empty = r := by
  simp [append, empty]

/-- Reports, appended one after the other. -/
def concat (rs : List Report) : Report := rs.foldl append empty

section Concat

variable {r : Report} {rs more : List Report}

/-- What was there before stays in front. -/
theorem foldl_append_eq (r : Report) (rs : List Report) :
    rs.foldl append r = r.append (concat rs) := by
  induction rs generalizing r with
  | nil => exact (append_empty r).symm
  | cons first rs ih =>
    calc
      (first :: rs).foldl append r = (r.append first).append (concat rs) := ih (r.append first)
      _ = r.append ((empty.append first).append (concat rs)) := by rw [append_assoc, empty_append]
      _ = r.append (concat (first :: rs)) := by rw [← ih]; rfl

theorem concat_cons : concat (r :: rs) = r.append (concat rs) := by
  calc
    concat (r :: rs) = (empty.append r).append (concat rs) := foldl_append_eq (empty.append r) rs
    _ = r.append (concat rs) := by rw [empty_append]

theorem concat_append : concat (rs ++ more) = (concat rs).append (concat more) := by
  unfold concat
  rw [List.foldl_append]
  exact foldl_append_eq _ more

/-- **The whole has the lists of the parts, one after the other, and the sum of their counts.** -/
theorem concat_eq (rs : List Report) :
    concat rs =
      { synced := rs.flatMap (·.synced)
        conflicts := rs.flatMap (·.conflicts)
        failed := rs.flatMap (·.failed)
        processed := .ofNat (rs.map (·.processed.toNat)).sum } := by
  induction rs with
  | nil => rfl
  | cons r rs ih =>
    rw [concat_cons, ih]
    simp only [append, List.flatMap_cons, List.map_cons, List.sum_cons, UInt64.ofNat_add,
      UInt64.ofNat_toNat]

end Concat

/-! ## Groups -/

/-- Reports in groups. -/
inductive Grouping where
  | none
  | one (r : Report)
  /-- One group behind the other. -/
  | both (g h : Grouping)
  deriving DecidableEq, Repr

namespace Grouping

/-- The reports, in order. -/
def reports : Grouping → List Report
  | .none => []
  | .one r => [r]
  | .both g h => g.reports ++ h.reports

/-- The report of all, each group appended by itself. -/
def total : Grouping → Report
  | .none => .empty
  | .one r => r
  | .both g h => g.total.append h.total

/-- **Groups make no difference.** -/
theorem total_eq (g : Grouping) : g.total = concat g.reports := by
  induction g with
  | none => rfl
  | one r => exact (empty_append r).symm
  | both g h ihg ihh =>
    rw [total, reports, concat_append, ihg, ihh]

end Grouping

/-! ## What is counted and what is lost -/

/-- The lists of a report hold no more actions than it counts. -/
def Counted (r : Report) : Prop := r.synced.length + r.failed.length ≤ r.processed.toNat

instance (r : Report) : Decidable r.Counted := Nat.decLe _ _

variable {r other : Report} {rs : List Report}

/-- The counts of two parts add up if the sum is a word. -/
theorem processed_append (h : r.processed.toNat + other.processed.toNat < UInt64.size) :
    (r.append other).processed.toNat = r.processed.toNat + other.processed.toNat := by
  simp only [append, UInt64.toNat_add]
  exact Nat.mod_eq_of_lt h

theorem Counted.append (hr : r.Counted) (hother : other.Counted)
    (h : r.processed.toNat + other.processed.toNat < UInt64.size) : (r.append other).Counted := by
  unfold Counted at *
  rw [processed_append h]
  simp only [Report.append, List.length_append]
  omega

/-- **What is lost in two parts is lost in the whole.** -/
theorem lost_append (hr : r.Counted) (hother : other.Counted)
    (h : r.processed.toNat + other.processed.toNat < UInt64.size) :
    (r.append other).lost = r.lost + other.lost := by
  unfold Counted at *
  unfold lost
  rw [processed_append h]
  simp only [Report.append, List.length_append]
  omega

/-- An action that one part does not count is taken from what the other part lost. -/
example :
    let uncounted : Report := ⟨[.queued "ann" .likePost .empty ⟨"a1"⟩ .epoch], [], [], 0⟩
    let lossy : Report := ⟨[], [], [], 1⟩
    (uncounted.append lossy).lost = 0 ∧ uncounted.lost + lossy.lost = 1 := by
  decide

/-- The whole counts what the parts count. -/
theorem processed_concat (hsum : (rs.map (·.processed.toNat)).sum < UInt64.size) :
    (concat rs).processed.toNat = (rs.map (·.processed.toNat)).sum := by
  rw [concat_eq]
  exact UInt64.toNat_ofNat_of_lt hsum

theorem counted_concat (hcounted : ∀ r ∈ rs, r.Counted)
    (hsum : (rs.map (·.processed.toNat)).sum < UInt64.size) :
    (concat rs).Counted ∧ (concat rs).lost = (rs.map lost).sum := by
  induction rs with
  | nil => exact ⟨Nat.le_refl 0, rfl⟩
  | cons r rs ih =>
    obtain ⟨hr, hrs⟩ := List.forall_mem_cons.mp hcounted
    rw [List.map_cons, List.sum_cons] at hsum
    have hrest : (rs.map (·.processed.toNat)).sum < UInt64.size := by omega
    obtain ⟨hwhole, hlost⟩ := ih hrs hrest
    rw [← processed_concat hrest] at hsum
    rw [concat_cons, List.map_cons, List.sum_cons, ← hlost]
    exact ⟨hr.append hwhole hsum, lost_append hr hwhole hsum⟩

/-- The report of all parts is theirs put together. -/
structure AddsUp (rs : List Report) : Prop where
  /-- The lists are those of the parts, one after the other. -/
  synced : (concat rs).synced = rs.flatMap (·.synced)
  conflicts : (concat rs).conflicts = rs.flatMap (·.conflicts)
  failed : (concat rs).failed = rs.flatMap (·.failed)
  /-- The count is the sum of the counts. -/
  processed : (concat rs).processed.toNat = (rs.map (·.processed.toNat)).sum
  /-- After every step the lists hold no more actions than are counted. -/
  counted : ∀ first, first <+: rs → (concat first).Counted
  /-- What is lost is what was lost in the parts. -/
  lost : (concat rs).lost = (rs.map lost).sum
  /-- It makes no difference in which groups the parts are appended. -/
  grouped : ∀ g : Grouping, g.reports = rs → g.total = concat rs
  /-- So it is for any three reports, and a report without actions adds nothing. -/
  assoc : ∀ r other more : Report, (r.append other).append more = r.append (other.append more)
  identity : ∀ r : Report, empty.append r = r ∧ r.append empty = r

/-- **Reports of parts add up**, if each counts its actions and the sum is a word. -/
theorem addsUp (hcounted : ∀ r ∈ rs, r.Counted)
    (hsum : (rs.map (·.processed.toNat)).sum < UInt64.size) : AddsUp rs where
  synced := congrArg Report.synced (concat_eq rs)
  conflicts := congrArg Report.conflicts (concat_eq rs)
  failed := congrArg Report.failed (concat_eq rs)
  processed := processed_concat hsum
  counted first hfirst := by
    obtain ⟨rest, rfl⟩ := hfirst
    rw [List.map_append, List.sum_append] at hsum
    refine (counted_concat (fun r hr => hcounted r (List.mem_append_left rest hr)) ?_).1
    exact Nat.lt_of_le_of_lt (Nat.le_add_right _ _) hsum
  lost := (counted_concat hcounted hsum).2
  grouped g hg := by rw [g.total_eq, hg]
  assoc := append_assoc
  identity r := ⟨empty_append r, append_empty r⟩

/-- A like that was carried out and one that lost its conflict, and a follow that failed. -/
def sampleParts : List Report :=
  let like := Action.queued "ann" .likePost (.ofPost "p1") ⟨"a1"⟩ .epoch
  let lost := Action.queued "ann" .likePost (.ofPost "p2") ⟨"a2"⟩ .epoch
  let follow := Action.queued "ann" .follow .empty ⟨"a3"⟩ .epoch
  [⟨[like], [{ Conflict.fresh lost .timestamp with resolution := some .remote }], [], 2⟩,
    ⟨[], [], [follow], 1⟩]

theorem addsUp_sample :
    (∀ r ∈ sampleParts, r.Counted) ∧
      (sampleParts.map (·.processed.toNat)).sum < UInt64.size ∧
      AddsUp sampleParts ∧ (concat sampleParts).processed = 3 ∧ (concat sampleParts).lost = 1 := by
  have hcounted : ∀ r ∈ sampleParts, r.Counted := by decide
  have hsum : (sampleParts.map (·.processed.toNat)).sum < UInt64.size := by decide
  exact ⟨hcounted, hsum, addsUp hcounted hsum, by decide, by decide⟩

end Outbox.Report
