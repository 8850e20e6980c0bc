import Outbox.Proofs.Timestamp.Readers

/-!
# The notations of an instant do not compete

No text is read in two notations (`readers_apart`). A date and time has a colon behind its first
digit; a date has no colon, but a hyphen behind its first character; a number has neither. So the
order in which the notations are tried does not matter (`parseIn?_of_perm`), and to say what a text
is read as it is enough to name the notation that reads it (`parse?_of_reads`).
-/

namespace Outbox.Timestamp

open Calendar Decimal

variable {c : Char} {cs : List Char}

/-! ## One reader at most -/

section Search

variable {α β : Type} {f : α → Option β} {l m : List α} {b : β}

/-- Where one entry at most gives something, a search finds what it gives. -/
theorem findSome?_of_pairwise (hl : l.Pairwise fun x y => f x = none ∨ f y = none) {x : α}
    (hx : x ∈ l) (hb : f x = some b) : l.findSome? f = some b := by
  induction l with
  | nil => cases hx
  | cons y l ih =>
    obtain ⟨hy, hl⟩ := List.pairwise_cons.mp hl
    rcases List.mem_cons.mp hx with rfl | hx
    · rw [List.findSome?_cons, hb]
    · have hnone : f y = none := (hy x hx).resolve_right (by simp [hb])
      rw [List.findSome?_cons, hnone]
      exact ih hl hx

/-- Such a search finds the same in every order. -/
theorem findSome?_of_perm (hl : l.Pairwise fun x y => f x = none ∨ f y = none) (hm : m.Perm l) :
    m.findSome? f = l.findSome? f := by
  have hm' := (hm.pairwise_iff fun h => h.symm).mpr hl
  cases hfound : l.findSome? f with
  | none =>
    rw [List.findSome?_eq_none_iff] at hfound ⊢
    exact fun x hx => hfound x (hm.subset hx)
  | some b =>
    obtain ⟨x, hx, hb⟩ := List.exists_of_findSome?_eq_some hfound
    exact findSome?_of_pairwise hm' (hm.symm.subset hx) hb

end Search

/-! ## The characters of a date -/

/-- A character that a date may have. -/
def IsDateChar (c : Char) : Prop := isDigit c = true ∨ Text.isBlank c = true ∨ c = '-' ∨ c = '+'

theorem isDateChar_of_trimStart (h : ∀ c ∈ Text.trimStart cs, IsDateChar c) :
    ∀ c ∈ cs, IsDateChar c := by
  intro c hc
  unfold Text.trimStart at h
  rw [← List.takeWhile_append_dropWhile (p := Text.isBlank) (l := cs)] at hc
  rcases List.mem_append.mp hc with hc | hc
  · exact Or.inr (Or.inl (List.all_eq_true.mp List.all_takeWhile c hc))
  · exact h c hc

theorem isDateChar_of_spanUpTo {count n : Nat} (hread : readNat? (spanUpTo count cs).1 = some n)
    (h : ∀ c ∈ (spanUpTo count cs).2, IsDateChar c) : ∀ c ∈ cs, IsDateChar c := by
  intro c hc
  rw [← spanUpTo_append_eq count cs] at hc
  rcases List.mem_append.mp hc with hc | hc
  · exact Or.inl ((readNat?_eq_some hread).2.1 c hc)
  · exact h c hc

theorem isDateChar_of_dropWhile
    (h : ∀ c ∈ cs.dropWhile isDigit, IsDateChar c) : ∀ c ∈ cs, IsDateChar c := by
  intro c hc
  rw [← List.takeWhile_append_dropWhile (p := isDigit) (l := cs)] at hc
  rcases List.mem_append.mp hc with hc | hc
  · exact Or.inl (List.all_eq_true.mp List.all_takeWhile c hc)
  · exact h c hc

theorem isDateChar_of_spanYear? {next : Int × List Char} (hspan : spanYear? cs = some next)
    (h : ∀ c ∈ next.2, IsDateChar c) : ∀ c ∈ cs, IsDateChar c := by
  unfold spanYear? at hspan
  split at hspan
  · obtain ⟨n, hread, rfl⟩ := Option.map_eq_some_iff.mp hspan
    exact List.forall_mem_cons.mpr ⟨by simp [IsDateChar], isDateChar_of_dropWhile h⟩
  · obtain ⟨n, hread, rfl⟩ := Option.map_eq_some_iff.mp hspan
    exact List.forall_mem_cons.mpr ⟨by simp [IsDateChar], isDateChar_of_dropWhile h⟩
  · obtain ⟨n, hread, rfl⟩ := Option.map_eq_some_iff.mp hspan
    exact isDateChar_of_spanUpTo hread h

theorem isDateChar_of_spanPart? {next : Nat × List Char} (hspan : spanPart? cs = some next)
    (h : ∀ c ∈ next.2, IsDateChar c) : ∀ c ∈ cs, IsDateChar c := by
  unfold spanPart? at hspan
  split at hspan
  · obtain ⟨n, hread, rfl⟩ := Option.map_eq_some_iff.mp hspan
    refine List.forall_mem_cons.mpr ⟨by simp [IsDateChar], ?_⟩
    exact isDateChar_of_trimStart (isDateChar_of_spanUpTo hread h)
  · cases hspan

/-- **A date is made up of digits, white space and signs.** -/
theorem isDateChar_of_readDate? {millis : Int} (h : readDate? cs = some millis) :
    ∀ c ∈ cs, IsDateChar c := by
  unfold readDate? at h
  obtain ⟨⟨year, cs'⟩, hyear, h⟩ := Option.bind_eq_some_iff.mp h
  obtain ⟨⟨month, cs''⟩, hmonth, h⟩ := Option.bind_eq_some_iff.mp h
  obtain ⟨⟨day, rest⟩, hday, h⟩ := Option.bind_eq_some_iff.mp h
  obtain ⟨date, -, h⟩ := Option.bind_eq_some_iff.mp h
  have hrest : ∀ c ∈ rest, IsDateChar c := by
    split at h
    · rename_i hend
      rw [hend.1]
      exact fun _ hc => absurd hc List.not_mem_nil
    · cases h
  exact isDateChar_of_trimStart (isDateChar_of_spanYear? hyear
    (isDateChar_of_spanPart? hmonth (isDateChar_of_spanPart? hday hrest)))

/-! ## The three notations -/

/-- The notations, in the order in which they are tried. -/
def readers : List (List Char → Option Int) := [readInstant?, readDate?, readMillis?]

/-- Reads an instant, with the notations tried in an order. -/
def parseIn? (order : List (List Char → Option Int)) (cs : List Char) : Option Timestamp :=
  (order.findSome? fun read => read (Text.trim cs)).bind ofMillis?

theorem parse?_eq (cs : List Char) : parse? cs = parseIn? readers cs := by
  unfold parse? parseIn? readers
  simp only [List.findSome?_cons, List.findSome?_nil]
  cases readInstant? (Text.trim cs) <;> cases readDate? (Text.trim cs) <;>
    cases readMillis? (Text.trim cs) <;> rfl

theorem readMillis?_of_readDate? {millis : Int} (h : readDate? cs = some millis) :
    readMillis? cs = none :=
  readMillis?_of_mem (hyphen_of_readDate? h) rfl

/-- A colon stands behind the first digit of a date and time, and in neither of the others. -/
theorem colon_of_readInstant? {millis : Int} (h : readInstant? cs = some millis) :
    readDate? cs = none ∧ readMillis? cs = none := by
  obtain ⟨⟨c, ds, rfl, hc⟩, hcolon⟩ := marks_of_readInstant? h
  constructor
  · refine Option.eq_none_iff_forall_ne_some.mpr fun millis hdate => ?_
    rcases isDateChar_of_readDate? hdate ':' hcolon with hdigit | hblank | hsign | hsign
    · cases hdigit
    · cases hblank
    · cases hsign
    · cases hsign
  · rcases List.mem_cons.mp hcolon with rfl | hcolon
    · cases hc
    · exact readMillis?_of_mem hcolon rfl

/-- **No two notations read the same text.** -/
theorem readers_apart (cs : List Char) :
    readers.Pairwise fun read read' => read cs = none ∨ read' cs = none := by
  have hinstant : readInstant? cs = none ∨ readDate? cs = none ∧ readMillis? cs = none := by
    rcases h : readInstant? cs with _ | millis
    · exact Or.inl rfl
    · exact Or.inr (colon_of_readInstant? h)
  have hdate : readDate? cs = none ∨ readMillis? cs = none := by
    rcases h : readDate? cs with _ | millis
    · exact Or.inl rfl
    · exact Or.inr (readMillis?_of_readDate? h)
  refine .cons ?_ (.cons (List.forall_mem_singleton.mpr hdate) (.cons ?_ .nil))
  · exact List.forall_mem_cons.mpr ⟨hinstant.imp_right And.left,
      List.forall_mem_singleton.mpr (hinstant.imp_right And.right)⟩
  · exact fun _ hnone => absurd hnone List.not_mem_nil

/-- **The order in which the notations are tried does not matter.** -/
theorem parseIn?_of_perm {order : List (List Char → Option Int)} (h : order.Perm readers)
    (cs : List Char) : parseIn? order cs = parse? cs := by
  rw [parse?_eq]
  unfold parseIn?
  rw [findSome?_of_perm (readers_apart (Text.trim cs)) h]

/-- What one of the notations reads is what is read. -/
theorem parse?_of_reads {read : List Char → Option Int} (hread : read ∈ readers) {t : Timestamp}
    (h : read (Text.trim cs) = some t.millis) : parse? cs = some t := by
  rw [parse?_eq]
  unfold parseIn?
  rw [findSome?_of_pairwise (readers_apart (Text.trim cs)) hread h, Option.bind_some,
    ofMillis?_millis]

/-! ## Numbers -/

theorem trim_signed (n : Int) : Text.trim (signed n) = signed n := by
  refine Text.trim_of_forall fun c hc => ?_
  rcases isDigit_of_mem_signed hc with rfl | hdigit
  · rfl
  · exact Text.isBlank_of_isDigit hdigit

/-- **Milliseconds are read as what they are.** -/
theorem parse?_signed (t : Timestamp) : parse? (signed t.millis) = some t := by
  have hread : readMillis? ∈ readers := by simp [readers]
  refine parse?_of_reads hread ?_
  rw [trim_signed]
  exact readMillis?_signed t

end Outbox.Timestamp
