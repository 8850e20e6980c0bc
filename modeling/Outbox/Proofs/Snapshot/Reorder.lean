import Outbox.Proofs.Snapshot.Edits

/-!
# Patches in another order

Patches whose paths part with each other can be replayed in any order; the results are the same but
for the order of keys (`Snapshot.same_replay_reordered`). Two paths part if neither begins with the
other. They may go through the same keys before they part, and what stands there may be missing,
give way or block; whether it blocks does not depend on the patch that comes first, since all a
patch leaves behind above its own path are objects.

Paths that part from all others have rests that do, and one that ends at the start has no others
beside it (`Snapshot.eq_singleton_of_end`).
-/

namespace Outbox.Snapshot

variable {key : String} {path other : List String} {edits : List Edit}

/-! ## Paths that part -/

/-- Neither of two paths begins with the other, so they are not the same either. -/
def Apart (path other : List String) : Prop := ¬ path <+: other ∧ ¬ other <+: path

instance (path other : List String) : Decidable (Apart path other) :=
  inferInstanceAs (Decidable (¬ path <+: other ∧ ¬ other <+: path))

theorem Apart.symm (h : Apart path other) : Apart other path := ⟨h.2, h.1⟩

theorem apart_cons_iff : Apart (key :: path) (key :: other) ↔ Apart path other := by
  unfold Apart
  rw [List.prefix_cons_inj, List.prefix_cons_inj]

/-- Every two of the paths part. -/
def AllApart (edits : List Edit) : Prop := edits.Pairwise fun e e' => Apart e.1 e'.1

/-- **A path that ends at the start is the only one.** -/
theorem eq_singleton_of_end (hapart : AllApart edits) (hend : ∃ e ∈ edits, e.1 = []) :
    ∃ e, edits = [e] := by
  obtain ⟨e, he, hnil⟩ := hend
  cases edits with
  | nil => cases he
  | cons first edits =>
    obtain ⟨hfirst, -⟩ := List.pairwise_cons.mp hapart
    refine ⟨first, congrArg (first :: ·) (List.eq_nil_iff_forall_not_mem.mpr fun e' he' => ?_)⟩
    rcases List.mem_cons.mp he with rfl | he
    · exact (hfirst e' he').1 (hnil ▸ List.nil_prefix)
    · exact (hfirst e he).2 (hnil ▸ List.nil_prefix)

/-- The rests of the paths at a key part as well. -/
theorem AllApart.editsAt (h : AllApart edits) (key : String) : AllApart (editsAt key edits) := by
  refine List.Pairwise.filterMap (restAt key) ?_ h
  intro e e' hapart rest hrest rest' hrest'
  rw [of_restAt hrest, of_restAt hrest'] at hapart
  exact apart_cons_iff.mp hapart

/-! ## Another order -/

/-- Edits of paths that part do the same in any order. -/
theorem alike_reordered : Alike fun edits others => edits.Perm others ∧ AllApart others where
  mem h _ := h.1.mem_iff
  ends h hend start := by
    obtain ⟨e, rfl⟩ := eq_singleton_of_end h.2 hend
    rw [List.perm_singleton.mp h.1]
  rests h key := ⟨h.1.filterMap _, h.2.editsAt key⟩

theorem same_replay_of_perm {data : Json} {patches others : List Patch} (hdata : data.WellFormed)
    (hothers : ∀ p ∈ others, ∀ x ∈ p.value?, x.WellFormed)
    (hapart : others.Pairwise fun p q => Apart (segments p.path) (segments q.path))
    (hperm : patches.Perm others) : (replay data patches).same (replay data others) = true := by
  have hedits : ∀ e ∈ others.map editOf, ∀ x ∈ e.2, x.WellFormed := List.forall_mem_map.mpr hothers
  have hstart : ∀ x ∈ some (Json.obj data.fields), x.WellFormed := by
    rintro x ⟨⟩
    exact Json.wellFormed_fields hdata
  have hallApart : AllApart (others.map editOf) := List.pairwise_map.mpr hapart
  have hsame := alike_reordered.sameAt_rewriteAll ⟨hperm.map editOf, hallApart⟩ hedits hstart
  rw [← replay_eq, ← replay_eq] at hsame
  exact hsame

/-- **Two patches whose paths part can be replayed in either order**, whatever they are replayed on,
and so can any number of patches, every two of whose paths part, in any order. -/
theorem same_replay_reordered {data : Json} (hdata : data.WellFormed) :
    (∀ p q : Patch, (∀ x ∈ p.value?, x.WellFormed) → (∀ x ∈ q.value?, x.WellFormed) →
        Apart (segments p.path) (segments q.path) →
        (replay data [p, q]).same (replay data [q, p]) = true) ∧
      ∀ patches others : List Patch, (∀ p ∈ others, ∀ x ∈ p.value?, x.WellFormed) →
        others.Pairwise (fun p q => Apart (segments p.path) (segments q.path)) →
        patches.Perm others → (replay data patches).same (replay data others) = true := by
  refine ⟨fun p q hp hq hapart => ?_, fun _ _ => same_replay_of_perm hdata⟩
  refine same_replay_of_perm hdata ?_ ?_ (List.Perm.swap q p [])
  · exact List.forall_mem_cons.mpr ⟨hq, List.forall_mem_singleton.mpr hp⟩
  · exact List.pairwise_pair.mpr hapart.symm

/-- Two patches that go through the same missing page, and one that a note blocks. -/
def sampleParting : List Patch :=
  [.add "page.title" (.str "draft"), .delete "note.by" none, .delete "page.lang.code" none,
    .modify "tags" (.arr []) none]

/-- In the reverse order the tags come before the page, and nothing else is different. -/
theorem sample_reordered :
    (Json.obj [("note", .str "kept")]).WellFormed ∧
      (∀ p ∈ sampleParting, ∀ x ∈ p.value?, x.WellFormed) ∧
      sampleParting.Pairwise (fun p q => Apart (segments p.path) (segments q.path)) ∧
      (replay (.obj [("note", .str "kept")]) sampleParting).fields.keys =
        ["note", "page", "tags"] ∧
      (replay (.obj [("note", .str "kept")]) sampleParting.reverse).fields.keys =
        ["note", "tags", "page"] ∧
      (replay (.obj [("note", .str "kept")]) sampleParting.reverse).same
        (replay (.obj [("note", .str "kept")]) sampleParting) = true ∧
      Apart (segments "page.title") (segments "page.lang.code") ∧
      (replay (.obj [("note", .str "kept")])
          [.add "page.title" (.str "draft"), .delete "page.lang.code" none]).same
        (replay (.obj [("note", .str "kept")])
          [.delete "page.lang.code" none, .add "page.title" (.str "draft")]) = true := by
  have hdata : (Json.obj [("note", .str "kept")]).WellFormed := by
    simp [Json.WellFormed, Json.WellFormedFields, Fields.keys]
  have hvalues : ∀ p ∈ sampleParting, ∀ x ∈ p.value?, x.WellFormed := by
    simp [sampleParting, Patch.value?, Json.WellFormed, Json.WellFormedItems]
  have hapart : sampleParting.Pairwise fun p q => Apart (segments p.path) (segments q.path) := by
    decide +kernel
  have htwo : Apart (segments "page.title") (segments "page.lang.code") := by decide +kernel
  obtain ⟨hswap, hreorder⟩ := same_replay_reordered hdata
  refine ⟨hdata, hvalues, hapart, by decide +kernel, by decide +kernel,
    hreorder _ _ hvalues hapart sampleParting.reverse_perm, htwo, hswap _ _ ?_ ?_ htwo⟩
  · exact hvalues (.add "page.title" (.str "draft")) (by decide)
  · exact hvalues (.delete "page.lang.code" none) (by decide)

end Outbox.Snapshot
