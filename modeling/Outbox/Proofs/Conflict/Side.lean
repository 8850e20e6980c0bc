import Outbox.Conflict.Settle

/-!
# Which side gives way

Settling compares the two sides of a conflict. Whoever has the remote action in its own queue meets
the same conflict the other way round (`Conflict.Mirrors`), and settles it by a rule of its own,
since a merge goes by the kind of the action that is local. Still they never both give way, so no
write is lost on both sides (`Conflict.Balanced`).

What settling does to one conflict depends on a comparison and on nothing else (`Conflict.Steady`).
The comparison is `Conflict.Outdone`, and all the rest follows from it.

* `side_eq_remote_iff`: the remote side prevails if it outdoes the local one.
* `Mirrors.not_outdone`: of a conflict and its mirror image one at most is outdone.
* `outdone_of_remadeAt`, `outdone_of_versioned`: an action is not outdone for being made later or
  having a higher version.
* `settle_balanced`: what holds of all conflicts.
-/

namespace Outbox.Conflict

variable {c d : Conflict}

/-! ## The comparison -/

/-- The version of the local action. -/
def localVersion (c : Conflict) : UInt64 := c.localAction.payload.version.getD 0

/-- The remote side outdoes the local one: it is later, or has the higher version. A kind of action
that stays is never outdone in a merge. -/
def Outdone (c : Conflict) : Prop :=
  match c.kind with
  | .timestamp => c.localAction.createdAt < c.remoteTime
  | .version => c.localVersion < c.remoteVersion
  | .merge =>
    MergeRule.ofKind c.localAction.kind = .laterWins ∧ c.localAction.createdAt < c.remoteTime

theorem laterSide_eq_remote_iff :
    c.laterSide = .remote ↔ c.localAction.createdAt < c.remoteTime := by
  unfold laterSide
  split
  · rename_i hle
    exact iff_of_false nofun (Int.not_lt.mpr hle)
  · rename_i hlt
    exact iff_of_true rfl (Int.not_le.mp hlt)

theorem higherSide_eq_remote_iff : c.higherSide = .remote ↔ c.localVersion < c.remoteVersion := by
  unfold higherSide localVersion
  split
  · rename_i hle
    exact iff_of_false nofun (UInt64.not_lt.mpr hle)
  · rename_i hlt
    exact iff_of_true rfl (UInt64.not_le.mp hlt)

/-- **The remote side prevails if it outdoes the local one.** -/
theorem side_eq_remote_iff : c.side = .remote ↔ c.Outdone := by
  unfold side Outdone
  cases c.kind with
  | timestamp => exact laterSide_eq_remote_iff
  | version => exact higherSide_eq_remote_iff
  | merge =>
    unfold policySide
    cases MergeRule.ofKind c.localAction.kind with
    | laterWins => exact laterSide_eq_remote_iff.trans (and_iff_right rfl).symm
    | localStays => exact iff_of_false nofun fun h => nomatch h.1

theorem side_eq_local_or_remote (c : Conflict) : c.side = .local ∨ c.side = .remote := by
  have hlater : c.laterSide = .local ∨ c.laterSide = .remote := by
    unfold laterSide
    split
    · exact Or.inl rfl
    · exact Or.inr rfl
  have hhigher : c.higherSide = .local ∨ c.higherSide = .remote := by
    unfold higherSide
    split
    · exact Or.inl rfl
    · exact Or.inr rfl
  unfold side policySide
  cases c.kind with
  | timestamp => exact hlater
  | version => exact hhigher
  | merge =>
    cases MergeRule.ofKind c.localAction.kind with
    | laterWins => exact hlater
    | localStays => exact Or.inl rfl

/-- In every other case the local side prevails. -/
theorem side_eq_local_iff : c.side = .local ↔ ¬ c.Outdone := by
  rw [← side_eq_remote_iff]
  rcases c.side_eq_local_or_remote with h | h
  · rw [h]
    exact iff_of_true rfl nofun
  · rw [h]
    exact iff_of_false nofun (not_not_intro rfl)

theorem settle_eq_remote_iff : c.settle.resolution = some .remote ↔ c.Outdone :=
  Option.some_inj.trans side_eq_remote_iff

theorem settle_eq_local_iff : c.settle.resolution = some .local ↔ ¬ c.Outdone :=
  Option.some_inj.trans side_eq_local_iff

/-- An action conflicts with a modification after it. -/
theorem isSome_ofModification?_iff (a : Action) (t : Timestamp) :
    (ofModification? a (some t)).isSome ↔ a.createdAt < t := by
  simp [Option.isSome_iff_exists, ofModification?_eq_some_iff]

/-! ## Two sides -/

/-- Two conflicts are one and the same, each seen from the side of its local action. What they have
on record about a resolution or a merge may differ. -/
structure Mirrors (c d : Conflict) : Prop where
  kind : c.kind = d.kind
  other : c.remoteAction = some d.localAction
  own : d.remoteAction = some c.localAction

namespace Mirrors

theorem symm (h : c.Mirrors d) : d.Mirrors c := ⟨h.kind.symm, h.own, h.other⟩

theorem remoteTime (h : c.Mirrors d) : c.remoteTime = d.localAction.createdAt := by
  unfold Conflict.remoteTime
  rw [h.other]

theorem remoteVersion (h : c.Mirrors d) : c.remoteVersion = d.localVersion := by
  unfold Conflict.remoteVersion
  rw [h.other]
  rfl

/-- By time, the one that is outdone is the earlier one. -/
theorem outdone_iff_of_timestamp (h : c.Mirrors d) (hkind : c.kind = .timestamp) :
    c.Outdone ↔ c.localAction.createdAt < d.localAction.createdAt := by
  unfold Outdone
  rw [hkind, h.remoteTime]

/-- By version, the one that is outdone has the lower one. -/
theorem outdone_iff_of_version (h : c.Mirrors d) (hkind : c.kind = .version) :
    c.Outdone ↔ c.localVersion < d.localVersion := by
  unfold Outdone
  rw [hkind, h.remoteVersion]

/-- In a merge the one that is outdone is the earlier one, and of a kind that does not stay. -/
theorem outdone_iff_of_merge (h : c.Mirrors d) (hkind : c.kind = .merge) :
    c.Outdone ↔ MergeRule.ofKind c.localAction.kind = .laterWins ∧
      c.localAction.createdAt < d.localAction.createdAt := by
  unfold Outdone
  rw [hkind, h.remoteTime]

/-- **A conflict and its mirror image are not both outdone.** -/
theorem not_outdone (h : c.Mirrors d) (hc : c.Outdone) : ¬ d.Outdone := by
  intro hd
  cases hkind : c.kind with
  | timestamp =>
    rw [h.outdone_iff_of_timestamp hkind] at hc
    rw [h.symm.outdone_iff_of_timestamp (h.kind ▸ hkind)] at hd
    exact Int.lt_asymm hc hd
  | version =>
    rw [h.outdone_iff_of_version hkind] at hc
    rw [h.symm.outdone_iff_of_version (h.kind ▸ hkind)] at hd
    exact UInt64.lt_asymm hc hd
  | merge =>
    -- The two sides may have different rules, but who is outdone is the earlier one by either.
    rw [h.outdone_iff_of_merge hkind] at hc
    rw [h.symm.outdone_iff_of_merge (h.kind ▸ hkind)] at hd
    exact Int.lt_asymm hc.2 hd.2

end Mirrors

/-- One side of a conflict gives way and the other one does not. -/
def OneGivesWay (c d : Conflict) : Prop :=
  (c.settle.resolution = some .remote ∧ d.settle.resolution = some .local) ∨
    (c.settle.resolution = some .local ∧ d.settle.resolution = some .remote)

/-- Neither side of a conflict gives way. -/
def NoneGivesWay (c d : Conflict) : Prop :=
  c.settle.resolution = some .local ∧ d.settle.resolution = some .local

/-- What comes of a conflict that both sides settle. -/
structure Balanced (c d : Conflict) : Prop where
  /-- Not both give way. -/
  kept : ¬ (c.settle.resolution = some .remote ∧ d.settle.resolution = some .remote)
  /-- One of two times gives way unless they are equal. -/
  times : c.kind = .timestamp →
    if c.localAction.createdAt = d.localAction.createdAt then c.NoneGivesWay d else c.OneGivesWay d
  /-- One of two versions gives way unless they are equal; a missing one is version 0. -/
  versions : c.kind = .version →
    if c.localAction.payload.version.getD 0 = d.localAction.payload.version.getD 0 then
      c.NoneGivesWay d
    else c.OneGivesWay d
  /-- By time, an action gives way if it conflicts with a modification at the time of the other. -/
  detected : c.kind = .timestamp → (c.settle.resolution = some .remote ↔
    (ofModification? c.localAction (some d.localAction.createdAt)).isSome)

/-- If one side is outdone and the other is not, it alone gives way. -/
theorem oneGivesWay_of_outdone (hc : c.Outdone) (hd : ¬ d.Outdone) : c.OneGivesWay d :=
  Or.inl ⟨settle_eq_remote_iff.mpr hc, settle_eq_local_iff.mpr hd⟩

theorem OneGivesWay.symm (h : c.OneGivesWay d) : d.OneGivesWay c :=
  (Or.symm h).imp And.symm And.symm

theorem Mirrors.balanced (h : c.Mirrors d) : c.Balanced d where
  kept := by
    rintro ⟨hc, hd⟩
    exact h.not_outdone (settle_eq_remote_iff.mp hc) (settle_eq_remote_iff.mp hd)
  times hkind := by
    have hc := h.outdone_iff_of_timestamp hkind
    have hd := h.symm.outdone_iff_of_timestamp (h.kind ▸ hkind)
    split
    · rename_i heq
      rw [heq] at hc hd
      exact ⟨settle_eq_local_iff.mpr fun ho => Int.lt_irrefl _ (hc.mp ho),
        settle_eq_local_iff.mpr fun ho => Int.lt_irrefl _ (hd.mp ho)⟩
    · rename_i hne
      rcases Int.lt_or_gt_of_ne (mt Timestamp.ext hne) with hlt | hgt
      · exact oneGivesWay_of_outdone (hc.mpr hlt) (h.not_outdone (hc.mpr hlt))
      · exact (oneGivesWay_of_outdone (hd.mpr hgt) (h.symm.not_outdone (hd.mpr hgt))).symm
  versions hkind := by
    have hc := h.outdone_iff_of_version hkind
    have hd := h.symm.outdone_iff_of_version (h.kind ▸ hkind)
    unfold localVersion at hc hd
    split
    · rename_i heq
      rw [heq] at hc hd
      exact ⟨settle_eq_local_iff.mpr fun ho => UInt64.lt_irrefl _ (hc.mp ho),
        settle_eq_local_iff.mpr fun ho => UInt64.lt_irrefl _ (hd.mp ho)⟩
    · rename_i hne
      rcases UInt64.lt_or_lt_of_ne hne with hlt | hgt
      · exact oneGivesWay_of_outdone (hc.mpr hlt) (h.not_outdone (hc.mpr hlt))
      · exact (oneGivesWay_of_outdone (hd.mpr hgt) (h.symm.not_outdone (hd.mpr hgt))).symm
  detected hkind := by
    rw [settle_eq_remote_iff, h.outdone_iff_of_timestamp hkind, isSome_ofModification?_iff]

/-! ## One conflict -/

/-- The conflict, had its local action been made at another time. -/
def remadeAt (c : Conflict) (t : Timestamp) : Conflict :=
  { c with localAction := { c.localAction with createdAt := t } }

/-- The conflict, had its local action had another version or none. -/
def versioned (c : Conflict) (version : Option UInt64) : Conflict :=
  { c with localAction :=
    { c.localAction with payload := { c.localAction.payload with version := version } } }

/-- **An action is not outdone for being made later.** -/
theorem outdone_of_remadeAt {t : Timestamp} (ht : c.localAction.createdAt ≤ t)
    (h : (c.remadeAt t).Outdone) : c.Outdone := by
  have hearlier (hlt : t < c.remoteTime) : c.localAction.createdAt < c.remoteTime :=
    Int.lt_of_le_of_lt ht hlt
  have hkind : (c.remadeAt t).kind = c.kind := rfl
  unfold Outdone at h ⊢
  rw [hkind] at h
  cases hk : c.kind with
  | timestamp =>
    rw [hk] at h
    exact hearlier h
  | version =>
    rw [hk] at h
    exact h
  | merge =>
    rw [hk] at h
    exact ⟨h.1, hearlier h.2⟩

/-- **An action is not outdone for having a higher version.** -/
theorem outdone_of_versioned {version : Option UInt64} (hv : c.localVersion ≤ version.getD 0)
    (h : (c.versioned version).Outdone) : c.Outdone := by
  have hkind : (c.versioned version).kind = c.kind := rfl
  unfold Outdone at h ⊢
  rw [hkind] at h
  cases hk : c.kind with
  | timestamp =>
    rw [hk] at h
    exact h
  | version =>
    rw [hk] at h
    exact UInt64.lt_of_le_of_lt hv h
  | merge =>
    rw [hk] at h
    exact h

/-- What settling does to a conflict. -/
structure Steady (c : Conflict) : Prop where
  /-- One of the two sides prevails. -/
  decided : c.settle.resolution = some .local ∨ c.settle.resolution = some .remote
  /-- An earlier resolution and merged data have no part in it. -/
  unswayed : ∀ resolution mergedData,
    ({ c with resolution, mergedData } : Conflict).settle.resolution = c.settle.resolution
  /-- Nothing but the resolution changes. -/
  only : { c.settle with resolution := c.resolution } = c
  /-- Settling again changes nothing. -/
  again : c.settle.settle = c.settle
  /-- An action that prevails does so if it is made later, in a conflict of any kind. -/
  later : ∀ t, c.localAction.createdAt ≤ t → c.settle.resolution = some .local →
    (c.remadeAt t).settle.resolution = some .local
  /-- An action that prevails does so with a higher version, in a conflict of any kind. -/
  higher : ∀ version, c.localAction.payload.version.getD 0 ≤ version.getD 0 →
    c.settle.resolution = some .local → (c.versioned version).settle.resolution = some .local

theorem steady (c : Conflict) : c.Steady where
  decided := c.side_eq_local_or_remote.imp (congrArg some) (congrArg some)
  unswayed _ _ := rfl
  only := rfl
  again := rfl
  later t ht h := by
    rw [settle_eq_local_iff] at h ⊢
    exact mt (outdone_of_remadeAt ht) h
  higher version hv h := by
    rw [settle_eq_local_iff] at h ⊢
    exact mt (outdone_of_versioned hv) h

/-- **No write is lost on both sides.** Of a conflict and its mirror image one at most gives way,
and where times or versions are compared that differ it is one indeed; by time it is the one that
would be found to conflict. And every conflict is settled for one of its sides, by what it compares
alone, and in favour of a local action the more so the later it is and the higher its version. -/
theorem settle_balanced : (∀ c d : Conflict, c.Mirrors d → c.Balanced d) ∧
    ∀ c : Conflict, c.Steady :=
  ⟨fun _ _ h => h.balanced, steady⟩

/-- A post and a join: in a merge the one stays and the other one is superseded. -/
def samplePost : Conflict where
  localAction := .queued "ann" .createPost (.newPost "hello" "t") ⟨"a1"⟩ ⟨-7, by decide⟩
  remoteAction := some (.queued "bob" .joinTopic (.ofTopic "t") ⟨"b1"⟩ .epoch)
  kind := .merge
  resolution := some .manual
  mergedData := none

/-- The same conflict from the side of the join. -/
def sampleJoined : Conflict where
  localAction := .queued "bob" .joinTopic (.ofTopic "t") ⟨"b1"⟩ .epoch
  remoteAction := some (.queued "ann" .createPost (.newPost "hello" "t") ⟨"a1"⟩ ⟨-7, by decide⟩)
  kind := .merge
  resolution := none
  mergedData := some .null

/-- The earlier post stays, because of its kind, and so does the later join. -/
theorem settle_balanced_sample :
    samplePost.Mirrors sampleJoined ∧ samplePost.Balanced sampleJoined ∧
      samplePost.NoneGivesWay sampleJoined ∧
      ({ samplePost with kind := .timestamp } : Conflict).OneGivesWay
        { sampleJoined with kind := .timestamp } := by
  have hmirrors : samplePost.Mirrors sampleJoined := ⟨rfl, rfl, rfl⟩
  have htimes := (settle_balanced.1 { samplePost with kind := .timestamp }
    { sampleJoined with kind := .timestamp } ⟨rfl, rfl, rfl⟩).times rfl
  rw [if_neg (by decide)] at htimes
  exact ⟨hmirrors, settle_balanced.1 _ _ hmirrors, ⟨rfl, rfl⟩, htimes⟩

end Outbox.Conflict
