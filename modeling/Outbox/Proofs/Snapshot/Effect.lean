import Outbox.Proofs.Snapshot.RoundTrip

/-!
# The effect of one patch

A patch either changes nothing at all or leads to its value. It changes nothing if its path is
blocked: some keys that it begins with lead to an array, or to a scalar that does not give way.
Otherwise its whole path leads to the new value, or nowhere after a deletion; every part that it
begins with leads to an object, also where nothing was before; and what is on no such way stays as
it was (`Snapshot.replay_singleton`).

`changeAt` finds out about a block on its way down and changes fields on its way up. `rewrite` does
the same with the value at the start of a path, one key after the other, and looks only at this
value; so what holds of a patch is proved by induction on its path.

* `Snapshot.rewrite_eq`, `Snapshot.replayOne_eq`: replaying a patch rewrites the whole snapshot.
* `Snapshot.wellFormed_replay`: patches with well-formed values keep a snapshot well formed.
* `Snapshot.rewrite_of_blocked`: a blocked path changes nothing.
* `Snapshot.rewritten_of_not_blocked`: what becomes of all other paths if it is not blocked.
-/

namespace Outbox

/-! ## Values at paths -/

namespace Json

/-- The value that a path leads to, by way of objects only. -/
def at? : List String → Json → Option Json
  | [], x => some x
  | key :: path, x => (Fields.get? key x.fields).bind (at? path)

/-- The values that a path cannot pass: arrays, and all scalars but null, false, a zero and the
empty string. -/
inductive Blocks : Json → Prop where
  | array (xs : List Json) : Blocks (.arr xs)
  | truth : Blocks (.bool true)
  | number {n : Number} : n.isZero = false → Blocks (.num n)
  | text {s : String} : s ≠ "" → Blocks (.str s)

theorem not_blocks_obj (fs : Fields Json) : ¬ (obj fs).Blocks := nofun

end Json

namespace Snapshot

variable {key : String} {path : List String} {value start : Option Json} {fs : Fields Json}

/-- The last change of a path changes nothing if the value is already there. -/
theorem lastChange_get? (key : String) (fs : Fields Json) :
    lastChange key (Fields.get? key fs) fs = fs := by
  unfold lastChange
  cases hvalue : Fields.get? key fs with
  | none => exact Fields.erase_of_get? hvalue
  | some x => exact Fields.put_of_get? hvalue

/-! ## Where a path goes on -/

/-- The fields in which a path goes on from a value, or from where nothing is: those of an object,
none where an object will be made, and nothing if the value blocks. -/
def below : Option Json → Option (Fields Json)
  | none => some []
  | some x => if x.isObject || givesWay x then some x.fields else none

theorem fieldsBelow_eq (key : String) (fs : Fields Json) :
    fieldsBelow key fs = below (Fields.get? key fs) := by
  unfold fieldsBelow
  cases Fields.get? key fs with
  | none => rfl
  | some x => cases x <;> rfl

/-- A path does not go on at a value that blocks, and at no other. -/
theorem below_eq_none_iff : below start = none ↔ ∃ x, start = some x ∧ x.Blocks := by
  cases start with
  | none => exact iff_of_false nofun fun ⟨x, hx, _⟩ => nomatch hx
  | some x =>
    have hblocks : (x.isObject || givesWay x) = false ↔ x.Blocks := by
      cases x with
      | null => exact iff_of_false nofun nofun
      | bool b =>
        cases b with
        | false => exact iff_of_false nofun nofun
        | true => exact iff_of_true rfl .truth
      | num n => exact ⟨.number, fun | .number hzero => hzero⟩
      | str s => exact ⟨fun h => .text (ne_of_beq_false h), fun | .text hs => beq_false_of_ne hs⟩
      | arr xs => exact iff_of_true rfl (.array xs)
      | obj fs => exact iff_of_false nofun nofun
    simp only [below, Option.some.injEq, exists_eq_left', ← hblocks]
    split
    · rename_i hpasses
      exact iff_of_false nofun (by simp [hpasses])
    · rename_i hpasses
      exact iff_of_true rfl (eq_false_of_ne_true hpasses)

/-- The fields in which a path goes on are those that were there. -/
theorem get?_below (h : below start = some fs) (key : String) :
    Fields.get? key fs = start.bind fun x => Fields.get? key x.fields := by
  cases start with
  | none =>
    cases h
    rfl
  | some x =>
    unfold below at h
    simp only at h
    split at h
    · cases h
      rfl
    · cases h

/-- Fields were there only in an object. -/
theorem eq_obj_of_below (h : below start = some fs) (hfs : fs ≠ []) : start = some (.obj fs) := by
  cases start with
  | none =>
    cases h
    exact absurd rfl hfs
  | some x =>
    unfold below at h
    simp only at h
    split at h
    · cases h
      cases x with
      | obj gs => rfl
      | null | bool _ | num _ | str _ | arr _ => exact absurd rfl hfs
    · cases h

/-- So a path that begins with a key goes on from the value there. -/
theorem at?_cons_below (h : below start = some fs) (key : String) (path : List String) :
    start.bind (Json.at? (key :: path)) = (Fields.get? key fs).bind (Json.at? path) := by
  rw [get?_below h key, Option.bind_assoc]
  rfl

/-! ## Rewriting from the start of a path -/

/-- What becomes of the value at the start of a path if there is to be a new one at its end. -/
def rewrite : List String → Option Json → Option Json → Option Json
  | [], value, _ => value
  | key :: path, value, start =>
    match below start with
    | none => start
    | some fs => some (.obj (lastChange key (rewrite path value (Fields.get? key fs)) fs))

theorem rewrite_cons_none (h : below start = none) :
    rewrite (key :: path) value start = start := by
  rw [rewrite, h]

theorem rewrite_cons_some (h : below start = some fs) :
    rewrite (key :: path) value start =
      some (.obj (lastChange key (rewrite path value (Fields.get? key fs)) fs)) := by
  rw [rewrite, h]

/-- No path is blocked where there is nothing yet. -/
theorem exists_changeAt_nil (change : Fields Json → Fields Json) (path : List String) :
    ∃ fs, changeAt change path [] = some fs := by
  induction path with
  | nil => exact ⟨_, rfl⟩
  | cons key path ih =>
    obtain ⟨fs, hfs⟩ := ih
    have hbelow : fieldsBelow key [] = some [] := rfl
    rw [changeAt, hbelow]
    simp only [hfs]
    exact ⟨_, rfl⟩

/-- **Changing the fields at the end of a path rewrites its start.** -/
theorem rewrite_eq {keys : List String} (hkeys : keys ≠ []) (value start : Option Json) :
    rewrite keys value start =
      match below start with
      | none => start
      | some fs => some (.obj ((changeAt (lastChange (keys.getLastD "") value) keys.dropLast
          fs).getD fs)) := by
  induction keys generalizing start with
  | nil => exact absurd rfl hkeys
  | cons key path ih =>
    cases hbelow : below start with
    | none => exact rewrite_cons_none hbelow
    | some fs =>
      rw [rewrite_cons_some hbelow]
      cases path with
      | nil => rfl
      | cons next path =>
        simp only [List.getLastD_cons, List.dropLast_cons_cons] at ih ⊢
        rw [ih (List.cons_ne_nil _ _), changeAt, fieldsBelow_eq]
        cases hinner : below (Fields.get? key fs) with
        | none => exact congrArg (fun gs => some (Json.obj gs)) (lastChange_get? key fs)
        | some inner =>
          simp only
          cases hchanged : changeAt (lastChange (path.getLastD next) value)
              ((next :: path).dropLast) inner with
          | some inner' => rfl
          | none =>
            -- Only what was there can block, so there was an object, and it is put back.
            have hinner' : inner ≠ [] := by
              rintro rfl
              obtain ⟨gs, hgs⟩ := exists_changeAt_nil (lastChange (path.getLastD next) value)
                (next :: path).dropLast
              rw [hgs] at hchanged
              cases hchanged
            have hthere := eq_obj_of_below hinner hinner'
            simp only [Option.getD_none]
            rw [← hthere, lastChange_get?]

/-- Replaying a patch rewrites the snapshot. -/
theorem replayOne_eq (fs : Fields Json) (p : Patch) :
    some (.obj (replayOne fs p)) = rewrite (segments p.path) p.value? (some (.obj fs)) := by
  rw [rewrite_eq (segments_ne_nil p.path)]
  rfl

/-! ## Well-formed snapshots -/

theorem wellFormed_below (hstart : ∀ x ∈ start, x.WellFormed) (h : below start = some fs) :
    (Json.obj fs).WellFormed := by
  by_cases hfs : fs = []
  · subst hfs
    exact Json.wellFormed_obj_iff.mpr ⟨List.nodup_nil, fun f hf => absurd hf List.not_mem_nil⟩
  · exact hstart _ (eq_obj_of_below h hfs)

theorem wellFormed_lastChange (hfs : (Json.obj fs).WellFormed)
    (hvalue : ∀ x ∈ value, x.WellFormed) : (Json.obj (lastChange key value fs)).WellFormed := by
  unfold lastChange
  cases value with
  | none => exact Json.wellFormed_erase hfs
  | some x => exact Json.wellFormed_put hfs (hvalue x rfl)

/-- A well-formed value keeps what it is put into well formed. -/
theorem wellFormed_rewrite (hvalue : ∀ x ∈ value, x.WellFormed)
    (hstart : ∀ x ∈ start, x.WellFormed) : ∀ x ∈ rewrite path value start, x.WellFormed := by
  induction path generalizing start with
  | nil => exact hvalue
  | cons key path ih =>
    cases hbelow : below start with
    | none =>
      rw [rewrite_cons_none hbelow]
      exact hstart
    | some fs =>
      rw [rewrite_cons_some hbelow]
      rintro x ⟨⟩
      have hfs := wellFormed_below hstart hbelow
      exact wellFormed_lastChange hfs (ih (Json.wellFormed_get? hfs))

theorem wellFormed_replayOne {p : Patch} (hp : ∀ x ∈ p.value?, x.WellFormed)
    (hfs : (Json.obj fs).WellFormed) : (Json.obj (replayOne fs p)).WellFormed := by
  have hstart : ∀ x ∈ some (Json.obj fs), x.WellFormed := by
    rintro x ⟨⟩
    exact hfs
  exact wellFormed_rewrite hp hstart _ (replayOne_eq fs p).symm

/-- **Patches with well-formed values keep a snapshot well formed.** -/
theorem wellFormed_replay {patches : List Patch}
    (hpatches : ∀ p ∈ patches, ∀ x ∈ p.value?, x.WellFormed) (hfs : (Json.obj fs).WellFormed) :
    (replay (.obj fs) patches).WellFormed := by
  rw [replay_obj]
  induction patches generalizing fs with
  | nil => exact hfs
  | cons p patches ih =>
    obtain ⟨hp, hrest⟩ := List.forall_mem_cons.mp hpatches
    exact ih hrest (wellFormed_replayOne hp hfs)

/-! ## Blocked paths -/

/-- Before the end of a path stands a value that it cannot pass. -/
def Blocked (path : List String) (start : Option Json) : Prop :=
  ∃ above x, above <+: path ∧ above ≠ path ∧ start.bind (Json.at? above) = some x ∧ x.Blocks

theorem not_blocked_nil (start : Option Json) : ¬ Blocked [] start := by
  rintro ⟨above, x, habove, hne, -⟩
  exact hne (List.prefix_nil.mp habove)

/-- A path is blocked at its start or further down. -/
theorem blocked_cons_iff (h : below start = some fs) :
    Blocked (key :: path) start ↔ Blocked path (Fields.get? key fs) := by
  constructor
  · rintro ⟨above, x, habove, hne, hx, hblocks⟩
    cases above with
    | nil =>
      have hstart : start = some x := by simpa [Json.at?] using hx
      rw [below_eq_none_iff.mpr ⟨x, hstart, hblocks⟩] at h
      cases h
    | cons first above =>
      obtain ⟨rfl, hprefix⟩ := List.cons_prefix_cons.mp habove
      rw [at?_cons_below h] at hx
      exact ⟨above, x, hprefix, fun heq => hne (congrArg (first :: ·) heq), hx, hblocks⟩
  · rintro ⟨above, x, habove, hne, hx, hblocks⟩
    refine ⟨key :: above, x, List.cons_prefix_cons.mpr ⟨rfl, habove⟩, ?_, ?_, hblocks⟩
    · exact fun heq => hne (List.cons_inj_right key |>.mp heq)
    · rw [at?_cons_below h]
      exact hx

theorem blocked_cons (h : below start = none) : Blocked (key :: path) start := by
  obtain ⟨x, rfl, hblocks⟩ := below_eq_none_iff.mp h
  exact ⟨[], x, List.nil_prefix, (List.cons_ne_nil _ _).symm, rfl, hblocks⟩

/-- **A blocked path changes nothing**, at no depth. -/
theorem rewrite_of_blocked (h : Blocked path start) : rewrite path value start = start := by
  induction path generalizing start with
  | nil => exact absurd h (not_blocked_nil start)
  | cons key path ih =>
    cases hbelow : below start with
    | none => exact rewrite_cons_none hbelow
    | some fs =>
      have hblocked := (blocked_cons_iff hbelow).mp h
      have hfs : fs ≠ [] := by
        rintro rfl
        obtain ⟨above, x, -, -, hx, -⟩ := hblocked
        cases hx
      rw [rewrite_cons_some hbelow, ih hblocked, lastChange_get?, eq_obj_of_below hbelow hfs]

/-- What becomes of all paths if one of them is to lead to a new value. -/
structure Rewritten (path : List String) (value start result : Option Json) : Prop where
  /-- The path leads to the new value, or nowhere. -/
  put : result.bind (Json.at? path) = value
  /-- What it begins with leads to objects. -/
  above : ∀ above, above <+: path → above ≠ path →
    ∃ fs, result.bind (Json.at? above) = some (.obj fs)
  /-- Paths that part with it lead where they led. -/
  apart : ∀ other, ¬ other <+: path → ¬ path <+: other →
    result.bind (Json.at? other) = start.bind (Json.at? other)

theorem rewritten_of_not_blocked (h : ¬ Blocked path start) :
    Rewritten path value start (rewrite path value start) := by
  induction path generalizing start with
  | nil =>
    refine ⟨?_, fun above habove hne => absurd (List.prefix_nil.mp habove) hne,
      fun other _ hpath => absurd List.nil_prefix hpath⟩
    cases value <;> rfl
  | cons key path ih =>
    cases hbelow : below start with
    | none => exact absurd (blocked_cons hbelow) h
    | some fs =>
      obtain ⟨hput, habove, hapart⟩ := ih (mt (blocked_cons_iff hbelow).mpr h)
      rw [rewrite_cons_some hbelow]
      have hcons (first : String) (other : List String) :
          (some (Json.obj (lastChange key (rewrite path value (Fields.get? key fs)) fs))).bind
              (Json.at? (first :: other)) =
            (if key = first then rewrite path value (Fields.get? key fs)
              else Fields.get? first fs).bind (Json.at? other) := by
        rw [← get?_lastChange]
        rfl
      refine ⟨?_, fun above hprefix hne => ?_, fun other hother hpath => ?_⟩
      · rw [hcons, if_pos rfl]
        exact hput
      · cases above with
        | nil => exact ⟨_, rfl⟩
        | cons first above =>
          obtain ⟨rfl, hfurther⟩ := List.cons_prefix_cons.mp hprefix
          rw [hcons, if_pos rfl]
          exact habove above hfurther fun heq => hne (congrArg (first :: ·) heq)
      · cases other with
        | nil => exact absurd List.nil_prefix hother
        | cons first other =>
          rw [hcons, at?_cons_below hbelow]
          by_cases hfirst : key = first
          · subst hfirst
            rw [if_pos rfl]
            refine hapart other (fun hprefix => hother ?_) (fun hprefix => hpath ?_)
            · exact List.cons_prefix_cons.mpr ⟨rfl, hprefix⟩
            · exact List.cons_prefix_cons.mpr ⟨rfl, hprefix⟩
          · rw [if_neg hfirst]

/-! ## One patch -/

/-- A part that the path begins with leads to a value that it cannot pass. -/
def Obstructed (data : Json) (path : List String) : Prop :=
  ∃ above x, above ≠ [] ∧ above <+: path ∧ above ≠ path ∧ data.at? above = some x ∧ x.Blocks

theorem obstructed_iff : Obstructed (.obj fs) path ↔ Blocked path (some (.obj fs)) := by
  constructor
  · rintro ⟨above, x, -, hblocked⟩
    exact ⟨above, x, hblocked⟩
  · rintro ⟨above, x, hprefix, hne, hx, hblocks⟩
    refine ⟨above, x, ?_, hprefix, hne, hx, hblocks⟩
    rintro rfl
    cases hx
    exact Json.not_blocks_obj fs hblocks

/-- The pieces of a text, with points between them, are the text. -/
theorem intercalate_splitPoints (cs : List Char) : ['.'].intercalate (splitPoints cs) = cs := by
  induction cs with
  | nil => rfl
  | cons c cs ih =>
    unfold splitPoints
    cases hpieces : splitPoints cs with
    | nil => exact absurd hpieces (splitPoints_ne_nil cs)
    | cons piece pieces =>
      rw [hpieces] at ih
      split
      · rename_i hc
        subst hc
        rw [List.intercalate_cons_cons, ih]
        rfl
      · simp only
        cases pieces with
        | nil =>
          rw [List.intercalate_singleton] at ih ⊢
          rw [ih]
        | cons next pieces =>
          rw [List.intercalate_cons_cons] at ih ⊢
          rw [List.cons_append, List.cons_append, ih]

/-- The keys of a path, with points between them, are the path, and none has a point. -/
theorem segments_spec (path : String) :
    ['.'].intercalate ((segments path).map String.toList) = path.toList ∧
      ∀ key ∈ segments path, '.' ∉ key.toList := by
  refine ⟨?_, fun key hkey hpoint => not_mem_segments hpoint hkey⟩
  unfold segments
  rw [List.map_map]
  have hid : String.toList ∘ String.ofList = id := funext fun _ => String.toList_ofList
  rw [hid, List.map_id, intercalate_splitPoints]

/-- **A patch changes nothing or leads to its value.** Its path is split at the points. If a part
that it begins with leads to a value that it cannot pass, the patch leaves the object as it is.
Otherwise the path leads to the value of the patch, or nowhere if it deletes; what it begins with
leads to objects; and every path that parts with it leads where it led. -/
theorem replay_singleton (fs : Fields Json) (p : Patch) :
    (['.'].intercalate ((segments p.path).map String.toList) = p.path.toList ∧
      ∀ key ∈ segments p.path, '.' ∉ key.toList) ∧
    (Obstructed (.obj fs) (segments p.path) → replay (.obj fs) [p] = .obj fs) ∧
    (¬ Obstructed (.obj fs) (segments p.path) →
      (replay (.obj fs) [p]).at? (segments p.path) = p.value? ∧
      (∀ above, above <+: segments p.path → above ≠ segments p.path →
        ∃ inner, (replay (.obj fs) [p]).at? above = some (.obj inner)) ∧
      ∀ other, ¬ other <+: segments p.path → ¬ segments p.path <+: other →
        (replay (.obj fs) [p]).at? other = (Json.obj fs).at? other) := by
  have hreplay : some (replay (.obj fs) [p]) =
      rewrite (segments p.path) p.value? (some (.obj fs)) := replayOne_eq fs p
  refine ⟨segments_spec p.path, fun h => ?_, fun h => ?_⟩
  · rw [rewrite_of_blocked (obstructed_iff.mp h)] at hreplay
    exact Option.some.inj hreplay
  · have hrewritten : Rewritten (segments p.path) p.value? (some (.obj fs)) _ :=
      rewritten_of_not_blocked (mt obstructed_iff.mpr h)
    rw [← hreplay] at hrewritten
    exact ⟨hrewritten.put, hrewritten.above, hrewritten.apart⟩

/-- A profile with a note and a page that is empty. -/
def sampleProfile : Fields Json := [("note", .str "kept"), ("page", .obj [("body", .null)])]

/-- A deletion below the empty page makes an object of it, and one below the note is skipped. -/
theorem replay_singleton_sample :
    Obstructed (.obj sampleProfile) (segments "note.by") ∧
      replay (.obj sampleProfile) [.delete "note.by" none] = .obj sampleProfile ∧
      ¬ Obstructed (.obj sampleProfile) (segments "page.body.lang") ∧
      (replay (.obj sampleProfile) [.delete "page.body.lang" none]).at? ["page", "body"] =
        some (.obj []) ∧
      (replay (.obj sampleProfile) [.delete "page.body.lang" none]).at? ["note"] =
        some (.str "kept") := by
  have hnote : segments "note.by" = ["note", "by"] := by decide +kernel
  have hpage : segments "page.body.lang" = ["page", "body", "lang"] := by decide +kernel
  have hobstructed : Obstructed (.obj sampleProfile) (segments "note.by") := by
    rw [hnote]
    exact ⟨["note"], .str "kept", by decide, by decide, by decide, rfl, .text (by decide)⟩
  have hpasses : ¬ Obstructed (.obj sampleProfile) (segments "page.body.lang") := by
    rw [hpage, obstructed_iff, blocked_cons_iff rfl, blocked_cons_iff rfl, blocked_cons_iff rfl]
    exact not_blocked_nil _
  obtain ⟨-, hskipped, -⟩ := replay_singleton sampleProfile (.delete "note.by" none)
  obtain ⟨-, -, hrewritten⟩ := replay_singleton sampleProfile (.delete "page.body.lang" none)
  obtain ⟨-, -, hapart⟩ := hrewritten hpasses
  have hpath : segments (Patch.delete "page.body.lang" none).path = ["page", "body", "lang"] :=
    hpage
  rw [hpath] at hapart
  exact ⟨hobstructed, hskipped hobstructed, hpasses, by decide +kernel,
    hapart ["note"] (by decide) (by decide)⟩

end Snapshot
end Outbox
