import Outbox.Proofs.Calendar
import Outbox.Proofs.Text.Decimal
import Outbox.Timestamp.Text

/-!
# What the notations of an instant accept

For each of the three notations: what it reads when the text is one of its own, and a mark by which
its texts are told from those of the others.

* `readInstant?_written`: date, time and offset. Such a text begins with a digit and has a colon
  (`marks_of_readInstant?`).
* `readDate?_dateText`: a date, and nothing behind it. Such a text has a hyphen behind its first
  character (`hyphen_of_readDate?`).
* `readMillis?_signed`: a number. Such a text has digits only behind its first character
  (`Decimal.isDigit_of_readInt?`).
-/

namespace Outbox

open Calendar Decimal

variable {c : Char} {cs rest : List Char} {n : Nat}

/-! ## White space -/

theorem Text.isBlank_of_isDigit (h : isDigit c = true) : isBlank c = false := by
  obtain ⟨hlow, hhigh⟩ := isDigit_iff.mp h
  simp only [isBlank, blanks, List.contains_eq_mem, List.mem_cons, List.not_mem_nil, or_false,
    decide_eq_false_iff_not]
  omega

theorem Text.trimStart_of_isDigit (h : isDigit c = true) : trimStart (c :: cs) = c :: cs :=
  List.dropWhile_cons_of_neg (Bool.eq_false_iff.mp (isBlank_of_isDigit h))

theorem Text.trimStart_of_head (h : ∀ c ∈ cs.head?, isBlank c = false) : trimStart cs = cs := by
  rcases cs with _ | ⟨c, cs⟩
  · rfl
  · exact List.dropWhile_cons_of_neg (Bool.eq_false_iff.mp (h c rfl))

/-- A text with no white space at either end is trimmed already. -/
theorem Text.trim_of_ends (hfirst : ∀ c ∈ cs.head?, isBlank c = false)
    (hlast : ∀ c ∈ cs.getLast?, isBlank c = false) : trim cs = cs := by
  unfold trim
  rw [trimStart_of_head hfirst, trimStart_of_head, List.reverse_reverse]
  rwa [List.head?_reverse]

theorem Text.trim_of_forall (h : ∀ c ∈ cs, isBlank c = false) : trim cs = cs :=
  trim_of_ends (fun c hc => h c (List.mem_of_head? hc)) fun c hc => h c (List.mem_of_getLast? hc)

namespace Timestamp

/-! ## Date, time and offset -/

theorem readUpTo?_padded {limit : Nat} (width : Nat) (h : n ≤ limit) :
    readUpTo? limit (padded width n) = some n := by
  unfold readUpTo?
  rw [readNat?_padded]
  exact if_pos h

theorem readNat?_of_readUpTo? {limit : Nat} (h : readUpTo? limit cs = some n) :
    readNat? cs = some n := by
  obtain ⟨m, hread, h⟩ := Option.bind_eq_some_iff.mp h
  split at h
  · rw [hread, h]
  · cases h

theorem padded_two (h : n < 10 ^ 2) : ∃ a b, padded 2 n = [a, b] := by
  have hlength := length_padded (by decide) h
  match hcs : padded 2 n, hlength with
  | [a, b], _ => exact ⟨a, b, rfl⟩

theorem padded_four (h : n < 10 ^ 4) : ∃ a b c d, padded 4 n = [a, b, c, d] := by
  have hlength := length_padded (by decide) h
  match hcs : padded 4 n, hlength with
  | [a, b, c, d], _ => exact ⟨a, b, c, d, rfl⟩

/-- **Date, time and offset are read**, each number with its own count of digits. -/
theorem readInstant?_eq {year month day hour minute second : Nat} (hyear : year < 10 ^ 4)
    (hmonth : month < 10 ^ 2) (hday : day < 10 ^ 2) (hhour : hour ≤ 23) (hminute : minute ≤ 59)
    (hsecond : second ≤ 60) (separator : Char) (rest : List Char) :
    readInstant? (padded 4 year ++ '-' :: (padded 2 month ++ '-' :: (padded 2 day ++
        separator :: (padded 2 hour ++ ':' :: (padded 2 minute ++ ':' ::
          (padded 2 second ++ rest)))))) =
      (do
        let date ← Date.mk? year month day
        let (millis, offset) ← readTail? rest
        if separator = 'T' ∨ separator = 't' ∨ separator = ' ' then
          some (date.dayNumber * dayMillis +
            (3600000 * hour + 60000 * minute + 1000 * second + millis : Nat) - 60000 * offset)
        else none) := by
  have hhour' := readUpTo?_padded 2 hhour
  have hminute' := readUpTo?_padded 2 hminute
  have hsecond' := readUpTo?_padded 2 hsecond
  have hyear' := readNat?_padded 4 year
  have hmonth' := readNat?_padded 2 month
  have hday' := readNat?_padded 2 day
  obtain ⟨y₁, y₂, y₃, y₄, hy⟩ := padded_four hyear
  obtain ⟨m₁, m₂, hm⟩ := padded_two hmonth
  obtain ⟨d₁, d₂, hd⟩ := padded_two hday
  obtain ⟨h₁, h₂, hh⟩ := padded_two (n := hour) (by omega)
  obtain ⟨n₁, n₂, hn⟩ := padded_two (n := minute) (by omega)
  obtain ⟨s₁, s₂, hs⟩ := padded_two (n := second) (by omega)
  rw [hy] at hyear' ⊢
  rw [hm] at hmonth' ⊢
  rw [hd] at hday' ⊢
  rw [hh] at hhour' ⊢
  rw [hn] at hminute' ⊢
  rw [hs] at hsecond' ⊢
  simp only [List.cons_append, List.nil_append, readInstant?, hyear', hmonth', hday', hhour',
    hminute', hsecond', Option.bind_eq_bind, Option.bind_some]

/-- The first three digits of a fraction are milliseconds. -/
theorem fractionMillis_padded_append (h : n < 10 ^ 3) (extra : List Char) :
    fractionMillis (padded 3 n ++ extra) = n := by
  have hlength := length_padded (by decide) h
  unfold fractionMillis
  rw [List.append_assoc, List.take_append_of_le_length (Nat.le_of_eq hlength.symm),
    List.take_of_length_le (Nat.le_of_eq hlength), ofDigits_padded]

theorem fractionMillis_padded (h : n < 10 ^ 3) : fractionMillis (padded 3 n) = n := by
  simpa using fractionMillis_padded_append h []

/-- A fraction is less than a second. -/
theorem fractionMillis_lt (h : ∀ c ∈ cs, isDigit c = true) : fractionMillis cs < 1000 := by
  have hzeros : ∀ c ∈ List.replicate 3 '0', isDigit c = true := fun c hc => by
    rw [List.eq_of_mem_replicate hc]
    rfl
  have hdigits : ∀ c ∈ (cs ++ ['0', '0', '0']).take 3, isDigit c = true := fun c hc =>
    List.forall_mem_append.mpr ⟨h, hzeros⟩ c (List.mem_of_mem_take hc)
  have hlength : ((cs ++ ['0', '0', '0']).take 3).length = 3 := by
    rw [List.length_take, List.length_append]
    simp
  have hlt := ofDigits_lt hdigits
  rwa [hlength] at hlt

/-- A fraction: a point and digits, or nothing. -/
def fractionText (ds : List Char) : List Char := if ds = [] then [] else '.' :: ds

theorem fractionText_append {ds : List Char} (h : ds ≠ []) (extra : List Char) :
    fractionText (ds ++ extra) = fractionText ds ++ extra := by
  unfold fractionText
  rw [if_neg h, if_neg (List.append_ne_nil_of_left_ne_nil h extra), List.cons_append]

/-- A time of day ends with a fraction of three digits. -/
theorem timeText_append (millis : Nat) (cs : List Char) :
    timeText millis ++ cs =
      padded 2 (millis / 3600000) ++ ':' :: (padded 2 (millis / 60000 % 60) ++ ':' ::
        (padded 2 (millis / 1000 % 60) ++
          (fractionText (padded 3 (millis % 1000)) ++ cs))) := by
  unfold timeText fractionText
  rw [if_neg (padded_ne_nil 3 _)]
  simp only [List.append_assoc, List.cons_append]

theorem isDigit_of_isMinus (h : isMinus c = true) : isDigit c = false := by
  unfold isMinus at h
  rw [Bool.or_eq_true, beq_iff_eq, beq_iff_eq] at h
  rcases h with rfl | h
  · rfl
  · rw [Bool.eq_false_iff, ne_eq, isDigit_iff, h]
    omega

/-- An offset begins with its sign or is a letter, and has no white space at its end. -/
theorem ends_of_readOffset? {offset : Int} (h : readOffset? cs = some offset) :
    (∃ c ds, cs = c :: ds ∧ isDigit c = false ∧ c ≠ '.') ∧
      ∃ c ∈ cs.getLast?, Text.isBlank c = false := by
  unfold readOffset? at h
  split at h
  · exact ⟨⟨'Z', [], rfl, rfl, by decide⟩, 'Z', rfl, rfl⟩
  · exact ⟨⟨'z', [], rfl, rfl, by decide⟩, 'z', rfl, rfl⟩
  · rename_i sign a b c d
    obtain ⟨hours, -, h⟩ := Option.bind_eq_some_iff.mp h
    obtain ⟨minutes, hminutes, h⟩ := Option.bind_eq_some_iff.mp h
    have hlast := (readNat?_eq_some (readNat?_of_readUpTo? hminutes)).2.1 d (by simp)
    refine ⟨⟨sign, _, rfl, ?_⟩, d, rfl, Text.isBlank_of_isDigit hlast⟩
    split at h
    · rename_i hplus
      subst hplus
      exact ⟨rfl, by decide⟩
    · split at h
      · rename_i hminus
        exact ⟨isDigit_of_isMinus hminus, by rintro rfl; cases hminus⟩
      · cases h
  · cases h

/-- **A fraction and an offset are read**, with as many digits as there are. -/
theorem readTail?_fraction {ds zone : List Char} {offset : Int}
    (hds : ∀ c ∈ ds, isDigit c = true) (hzone : readOffset? zone = some offset) :
    readTail? (fractionText ds ++ zone) = some (fractionMillis ds, offset) := by
  obtain ⟨⟨c, rest, rfl, hdigit, hpoint⟩, -⟩ := ends_of_readOffset? hzone
  unfold fractionText readTail?
  by_cases hnone : ds = []
  · subst hnone
    rw [if_pos rfl, List.nil_append]
    split
    · rename_i heq
      cases heq
      exact absurd rfl hpoint
    · rw [hzone]
      rfl
  · obtain ⟨hdigits, hrest⟩ := span_isDigit hds hdigit rest
    rw [if_neg hnone]
    simp only [List.cons_append, hdigits, hrest, if_neg hnone, hzone]
    rfl

/-- **A date and time is read as this time of day of this date**, less the offset. -/
theorem readInstant?_written {d : Date} {hour minute second : Nat} {separator : Char}
    {ds zone : List Char} {offset : Int} (hd : d.Valid) (hyear : 0 ≤ d.year ∧ d.year ≤ 9999)
    (hhour : hour ≤ 23) (hminute : minute ≤ 59) (hsecond : second ≤ 60)
    (hseparator : separator ∈ ['T', 't', ' ']) (hds : ∀ c ∈ ds, isDigit c = true)
    (hzone : readOffset? zone = some offset) :
    readInstant? (dateText d ++ separator :: (padded 2 hour ++ ':' :: (padded 2 minute ++
        ':' :: (padded 2 second ++ (fractionText ds ++ zone))))) =
      some (d.dayNumber * dayMillis +
        (3600000 * hour + 60000 * minute + 1000 * second + fractionMillis ds : Nat) -
          60000 * offset) := by
  obtain ⟨hmonth, hday⟩ := hd.bounds
  have hfour : d.year.toNat < 10 ^ 4 := by omega
  have hmark : separator = 'T' ∨ separator = 't' ∨ separator = ' ' := by simpa using hseparator
  unfold dateText yearText
  rw [if_pos hyear]
  simp only [List.append_assoc, List.cons_append]
  rw [readInstant?_eq hfour hmonth hday hhour hminute hsecond, Int.toNat_of_nonneg hyear.1,
    Date.mk?_of_valid hd, readTail?_fraction hds hzone]
  simp only [Option.bind_eq_bind, Option.bind_some, if_pos hmark]

/-- A text with date, time and offset begins with a digit and has a colon. -/
theorem marks_of_readInstant? {millis : Int} (h : readInstant? cs = some millis) :
    (∃ c ds, cs = c :: ds ∧ isDigit c = true) ∧ ':' ∈ cs := by
  unfold readInstant? at h
  split at h
  · obtain ⟨year, hyear, -⟩ := Option.bind_eq_some_iff.mp h
    refine ⟨⟨_, _, rfl, (readNat?_eq_some hyear).2.1 _ List.mem_cons_self⟩, ?_⟩
    simp
  · cases h

/-! ## Dates -/

/-- As many digits as are asked for, if there are that many. -/
theorem spanUpTo_append {ds : List Char} (h : ∀ c ∈ ds, isDigit c = true) (rest : List Char) :
    spanUpTo ds.length (ds ++ rest) = (ds, rest) := by
  induction ds with
  | nil => cases rest <;> rfl
  | cons d ds ih =>
    obtain ⟨hd, hds⟩ := List.forall_mem_cons.mp h
    rw [List.length_cons, List.cons_append, spanUpTo, if_pos hd, ih hds]

/-- What is read and what is handed back make up the text. -/
theorem spanUpTo_append_eq (count : Nat) (cs : List Char) :
    (spanUpTo count cs).1 ++ (spanUpTo count cs).2 = cs := by
  fun_induction spanUpTo count cs with
  | case1 count c rest hc ds left hspan ih =>
    rw [hspan] at ih
    rw [List.cons_append, ih]
  | case2 count c rest hc => rfl
  | case3 => rfl

theorem spanUpTo_suffix (count : Nat) (cs : List Char) : (spanUpTo count cs).2 <:+ cs :=
  ⟨_, spanUpTo_append_eq count cs⟩

/-- **A year is read off the front of a date**, with its sign if it has one. -/
theorem spanYear?_yearText (year : Int) (rest : List Char) :
    spanYear? (yearText year ++ '-' :: rest) = some (year, '-' :: rest) := by
  unfold yearText
  split
  · rename_i hyear
    have hfits : year.toNat < 10 ^ 4 := by omega
    have hdigits : ∀ c ∈ padded 4 year.toNat, isDigit c = true := fun c hc =>
      isDigit_of_mem_padded hc
    have hspan := spanUpTo_append hdigits ('-' :: rest)
    have hread := readNat?_padded 4 year.toNat
    rw [length_padded (by decide) hfits] at hspan
    obtain ⟨a, b, c, d, hcs⟩ := padded_four hfits
    rw [hcs] at hdigits hspan hread ⊢
    have ha := hdigits a List.mem_cons_self
    unfold spanYear?
    split
    · rename_i heq
      cases heq
      cases ha
    · rename_i heq
      cases heq
      cases ha
    · simp only [hspan, hread, Option.map_some, Int.toNat_of_nonneg hyear.1]
  · have hfour : ∀ c ∈ padded 4 year.natAbs, isDigit c = true := fun c hc =>
      isDigit_of_mem_padded hc
    obtain ⟨hdigits, hrest⟩ := span_isDigit hfour (rfl : isDigit '-' = false) rest
    split
    · rw [List.cons_append]
      simp only [spanYear?, hdigits, hrest, readNat?_padded, Option.map_some]
      rw [show -(year.natAbs : Int) = year by omega]
    · rw [List.cons_append]
      simp only [spanYear?, hdigits, hrest, readNat?_padded, Option.map_some]
      rw [show (year.natAbs : Int) = year by omega]

/-- A month or a day of two digits is read, whatever follows. -/
theorem spanPart?_padded (h : n < 10 ^ 2) (rest : List Char) :
    spanPart? ('-' :: (padded 2 n ++ rest)) = some (n, rest) := by
  have hdigits : ∀ c ∈ padded 2 n, isDigit c = true := fun c hc => isDigit_of_mem_padded hc
  have hspan := spanUpTo_append hdigits rest
  have hread := readNat?_padded 2 n
  rw [length_padded (by decide) h] at hspan
  obtain ⟨a, b, hcs⟩ := padded_two h
  rw [hcs] at hdigits hspan hread ⊢
  have htrim : Text.trimStart (a :: b :: rest) = a :: b :: rest :=
    Text.trimStart_of_isDigit (hdigits a List.mem_cons_self)
  simp only [List.cons_append, List.nil_append] at hspan
  simp only [spanPart?, List.cons_append, List.nil_append, htrim, hspan, hread, Option.map_some]

theorem trimStart_yearText (year : Int) (rest : List Char) :
    Text.trimStart (yearText year ++ rest) = yearText year ++ rest := by
  unfold yearText
  split
  · cases hcs : padded 4 year.toNat with
    | nil => exact absurd hcs (padded_ne_nil _ _)
    | cons c cs =>
      have hmem : c ∈ padded 4 year.toNat := hcs ▸ List.mem_cons_self
      exact Text.trimStart_of_isDigit (isDigit_of_mem_padded hmem)
  · split <;> rfl

/-- **A date is read if nothing follows it** and its year is one that can be written. -/
theorem readDate?_dateText {d : Date} (h : d.Valid) (rest : List Char) :
    readDate? (dateText d ++ rest) =
      if rest = [] ∧ leastYear ≤ d.year ∧ d.year ≤ greatestYear then some (d.dayNumber * dayMillis)
      else none := by
  obtain ⟨hmonth, hday⟩ := h.bounds
  unfold readDate? dateText
  simp only [List.append_assoc, List.cons_append, trimStart_yearText, spanYear?_yearText,
    spanPart?_padded hmonth, spanPart?_padded hday, Date.mk?_of_valid h, Option.bind_eq_bind,
    Option.bind_some]

theorem hyphen_of_spanPart? {next : Nat × List Char} (h : spanPart? cs = some next) : '-' ∈ cs := by
  unfold spanPart? at h
  split at h
  · exact List.mem_cons_self
  · cases h

/-- Behind a year stands a part of the text that leaves out the first character. -/
theorem subset_of_spanYear? {next : Int × List Char} (h : spanYear? cs = some next) :
    next.2 ⊆ cs.tail := by
  unfold spanYear? at h
  split at h
  · obtain ⟨m, -, rfl⟩ := Option.map_eq_some_iff.mp h
    exact (List.dropWhile_suffix _).subset
  · obtain ⟨m, -, rfl⟩ := Option.map_eq_some_iff.mp h
    exact (List.dropWhile_suffix _).subset
  · obtain ⟨m, hm, rfl⟩ := Option.map_eq_some_iff.mp h
    cases cs with
    | nil => exact List.Subset.refl _
    | cons c cs =>
      by_cases hc : isDigit c = true
      · simp only [spanUpTo, if_pos hc]
        exact (spanUpTo_suffix 3 cs).subset
      · simp only [spanUpTo, if_neg hc] at hm
        exact absurd rfl (readNat?_eq_some hm).1

/-- A date has a hyphen behind its first character. -/
theorem hyphen_of_readDate? {millis : Int} (h : readDate? cs = some millis) : '-' ∈ cs.tail := by
  unfold readDate? at h
  obtain ⟨year, hyear, h⟩ := Option.bind_eq_some_iff.mp h
  obtain ⟨month, hmonth, -⟩ := Option.bind_eq_some_iff.mp h
  have hmem := subset_of_spanYear? hyear (hyphen_of_spanPart? hmonth)
  have hsuffix : (Text.trimStart cs).tail <:+ cs.tail := by
    unfold Text.trimStart
    obtain ⟨ds, hds⟩ := List.dropWhile_suffix (l := cs) Text.isBlank
    generalize List.dropWhile Text.isBlank cs = trimmed at hds
    subst hds
    cases ds with
    | nil => exact List.suffix_refl _
    | cons d ds => exact (List.tail_suffix trimmed).trans (List.suffix_append ds trimmed)
  exact hsuffix.subset hmem

/-! ## Numbers -/

/-- **A number is read** if it is an instant. -/
theorem readMillis?_signed (t : Timestamp) : readMillis? (signed t.millis) = some t.millis := by
  unfold readMillis?
  rw [readInt?_signed]
  exact if_pos t.inRange

/-- A text with another character than a digit behind its first one is no number. -/
theorem readMillis?_of_mem (hc : c ∈ cs.tail) (h : isDigit c = false) : readMillis? cs = none := by
  unfold readMillis?
  cases hread : readInt? cs with
  | none => rfl
  | some m =>
    rw [isDigit_of_readInt? hread c hc] at h
    cases h

end Timestamp
end Outbox
