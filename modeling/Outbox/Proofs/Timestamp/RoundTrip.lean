import Outbox.Proofs.Timestamp.Notations

/-!
# The text of an instant, read back

Instants of the years 0 to 9999 are written with four digits for the year, and those that are too
far off for a date are written as numbers. Both can be read back (`Timestamp.ReadsBack`). Between
them lie the years whose text has a sign: there `text` writes a date with a time, which is no
notation that `parse` knows, so reading it is an error and never another instant.

* `parse?_of_inYears`, `parse?_of_tooFar`, `parse?_of_signedYear`: the three cases.
* `render_inj`: the text tells every instant from every other one, also where it cannot be read.
* `text_round_trip`: what comes of reading the text of an instant.
-/

namespace Outbox.Timestamp

open Calendar Decimal

/-! ## Bounds -/

/-- The first millisecond of a date. -/
def firstMillis (d : Date) : Int := d.dayNumber * dayMillis

/-- The last millisecond of a date. -/
def lastMillis (d : Date) : Int := firstMillis d + (dayMillis - 1)

/-- The instants whose text can be read: those of the years 0 to 9999, and those before the least
and after the greatest year that is written as a date. -/
def ReadsBack (t : Timestamp) : Prop :=
  (firstMillis ⟨0, 1, 1⟩ ≤ t.millis ∧ t.millis ≤ lastMillis ⟨9999, 12, 31⟩) ∨
    t.millis < firstMillis ⟨leastYear, 1, 1⟩ ∨ lastMillis ⟨greatestYear, 12, 31⟩ < t.millis

instance (t : Timestamp) : Decidable t.ReadsBack := by unfold ReadsBack; infer_instance

example : firstMillis ⟨0, 1, 1⟩ = -62167219200000 ∧
    lastMillis ⟨9999, 12, 31⟩ = 253402300799999 := by
  decide

example : firstMillis ⟨leastYear, 1, 1⟩ = -8334601228800000 ∧
    lastMillis ⟨greatestYear, 12, 31⟩ = 8210266876799999 := by decide

/-- The date on which an instant lies. -/
def date (t : Timestamp) : Date := Date.ofDayNumber (t.millis / dayMillis)

/-- The time of day of an instant, in milliseconds. -/
def clock (t : Timestamp) : Nat := (t.millis % dayMillis).toNat

/-- The date of an instant is one that is written. -/
def HasDate (t : Timestamp) : Prop := leastYear ≤ t.date.year ∧ t.date.year ≤ greatestYear

instance (t : Timestamp) : Decidable t.HasDate := by unfold HasDate; infer_instance

variable {t t' : Timestamp}

/-- A count of milliseconds is made up of whole days and a time of day. -/
theorem split_millis (n : Int) :
    n = (Date.ofDayNumber (n / dayMillis)).dayNumber * dayMillis + (n % dayMillis).toNat ∧
      (n % dayMillis).toNat < 86400000 := by
  rw [Date.dayNumber_ofDayNumber]
  unfold dayMillis
  omega

theorem clock_lt (t : Timestamp) : t.clock < 86400000 := (split_millis t.millis).2

/-- An instant is the first millisecond of its date and the time of day. -/
theorem millis_eq (t : Timestamp) : t.millis = t.date.dayNumber * dayMillis + t.clock :=
  (split_millis t.millis).1

theorem le_year_iff (year : Int) :
    year ≤ t.date.year ↔ (daysBeforeYear year - epochDay) * dayMillis ≤ t.millis := by
  unfold date
  rw [Date.year_ofDayNumber, le_yearOf_iff]
  unfold dayMillis epochDay
  omega

theorem firstMillis_year (year : Int) :
    firstMillis ⟨year, 1, 1⟩ = (daysBeforeYear year - epochDay) * dayMillis := by
  unfold firstMillis
  rw [Date.dayNumber_eq]
  simp

/-- The last day of a year comes before the first day of the next one. -/
theorem lastMillis_year (year : Int) :
    lastMillis ⟨year, 12, 31⟩ + 1 = (daysBeforeYear (year + 1) - epochDay) * dayMillis := by
  have hsum : ((monthLengths year).take 11).sum + 31 = (monthLengths year).sum := rfl
  unfold lastMillis firstMillis
  rw [Date.dayNumber_eq, daysBeforeYear_succ, ← hsum]
  unfold dayMillis
  push_cast
  omega

/-- The bounds, by years. -/
theorem readsBack_iff :
    t.ReadsBack ↔ (0 ≤ t.date.year ∧ t.date.year ≤ 9999) ∨ ¬ t.HasDate := by
  have hzero := le_year_iff (t := t) 0
  have hfour := le_year_iff (t := t) (9999 + 1)
  have hleast := le_year_iff (t := t) leastYear
  have hgreatest := le_year_iff (t := t) (greatestYear + 1)
  rw [← firstMillis_year] at hzero hleast
  rw [← lastMillis_year] at hfour hgreatest
  unfold ReadsBack HasDate
  omega

theorem render_of_hasDate (h : t.HasDate) :
    t.render = dateText t.date ++ 'T' :: timeText t.clock ++ ['Z'] := if_pos h

theorem render_of_not_hasDate (h : ¬ t.HasDate) : t.render = signed t.millis := if_neg h

/-! ## Characters -/

/-- The characters that are not digits. -/
theorem mem_render {c : Char} (h : c ∈ t.render) :
    isDigit c = true ∨ c ∈ ['-', '+', 'T', ':', '.', 'Z'] := by
  by_cases hdate : t.HasDate
  · rw [render_of_hasDate hdate] at h
    unfold dateText yearText timeText at h
    split at h
    all_goals
      simp only [List.mem_append, List.mem_cons, List.not_mem_nil, or_false] at h ⊢
      grind [isDigit_of_mem_padded]
  · rw [render_of_not_hasDate hdate] at h
    rcases isDigit_of_mem_signed h with rfl | h
    · exact Or.inr List.mem_cons_self
    · exact Or.inl h

theorem trim_render (t : Timestamp) : Text.trim t.render = t.render := by
  refine Text.trim_of_forall fun c hc => ?_
  rcases mem_render hc with h | h
  · exact Text.isBlank_of_isDigit h
  · have hmarks : ∀ c ∈ ['-', '+', 'T', ':', '.', 'Z'], Text.isBlank c = false := by
      simp [Text.isBlank, Text.blanks]
    exact hmarks c h

/-- The mark between date and time is in the text of a date and in no number. -/
theorem mem_render_iff : 'T' ∈ t.render ↔ t.HasDate := by
  constructor
  · intro h
    refine Decidable.byContradiction fun hdate => ?_
    rw [render_of_not_hasDate hdate] at h
    rcases isDigit_of_mem_signed h with h | h <;> cases h
  · intro hdate
    rw [render_of_hasDate hdate]
    simp

/-! ## Reading -/

/-- Dates and times are read back if the year has four digits. -/
theorem readInstant?_render (hdate : t.HasDate) (hlow : 0 ≤ t.date.year)
    (hhigh : t.date.year ≤ 9999) : readInstant? t.render = some t.millis := by
  have hvalid : t.date.Valid := Date.valid_ofDayNumber _
  have hclock := t.clock_lt
  rw [render_of_hasDate hdate, List.append_assoc, List.cons_append, timeText_append,
    readInstant?_written hvalid ⟨hlow, hhigh⟩ (by omega) (by omega) (by omega) List.mem_cons_self
      (fun c hc => isDigit_of_mem_padded hc) (rfl : readOffset? ['Z'] = some 0),
    fractionMillis_padded (by omega), t.millis_eq]
  congr 2
  omega

/-- **An instant of the years 0 to 9999 is read back.** -/
theorem parse?_of_inYears (hdate : t.HasDate) (hlow : 0 ≤ t.date.year)
    (hhigh : t.date.year ≤ 9999) : parse? t.render = some t := by
  have hread : readInstant? ∈ readers := by simp [readers]
  refine parse?_of_reads hread ?_
  rw [trim_render]
  exact readInstant?_render hdate hlow hhigh

/-- **A number is read back.** -/
theorem parse?_of_tooFar (hdate : ¬ t.HasDate) : parse? t.render = some t := by
  rw [render_of_not_hasDate hdate]
  exact parse?_signed t

/-- **A date and time whose year has a sign is not read.** -/
theorem parse?_of_signedYear (hdate : t.HasDate)
    (hyear : ¬ (0 ≤ t.date.year ∧ t.date.year ≤ 9999)) : parse? t.render = none := by
  have hrender := render_of_hasDate hdate
  obtain ⟨sign, rest, hsign, hcs⟩ :
      ∃ sign rest, sign ∈ ['-', '+'] ∧ t.render = sign :: rest := by
    rw [hrender]
    unfold dateText yearText
    rw [if_neg hyear]
    split
    · exact ⟨'-', _, by decide, rfl⟩
    · exact ⟨'+', _, by decide, rfl⟩
  have hsigns : ∀ c ∈ ['-', '+'], isDigit c = false ∧ c ≠ 'T' := by
    simp [isDigit, Char.le_def]
  obtain ⟨hdigit, hmark⟩ := hsigns sign hsign
  have hinstant : readInstant? t.render = none := by
    cases hread : readInstant? t.render with
    | none => rfl
    | some millis =>
      obtain ⟨⟨c, ds, hds, hc⟩, -⟩ := marks_of_readInstant? hread
      rw [hcs] at hds
      cases hds
      rw [hdigit] at hc
      cases hc
  have hday : readDate? t.render = none := by
    have hvalid : t.date.Valid := Date.valid_ofDayNumber _
    rw [hrender, List.append_assoc, readDate?_dateText hvalid]
    exact if_neg fun h => nomatch h.1
  have hmillis : readMillis? t.render = none := by
    have hmem := mem_render_iff.mpr hdate
    rw [hcs] at hmem ⊢
    rcases List.mem_cons.mp hmem with hmem | hmem
    · exact absurd hmem.symm hmark
    · exact readMillis?_of_mem hmem rfl
  unfold parse?
  simp only [trim_render, hinstant, hday, hmillis, Option.none_or, Option.bind_none]

/-! ## Telling instants apart -/

/-- Numbers of the same width are told apart in front of any text. -/
theorem padded_append_inj {width m n : Nat} {cs ds : List Char} (hwidth : 0 < width)
    (hm : m < 10 ^ width) (hn : n < 10 ^ width) (h : padded width m ++ cs = padded width n ++ ds) :
    m = n ∧ cs = ds := by
  have hlength : (padded width m).length = (padded width n).length := by
    rw [length_padded hwidth hm, length_padded hwidth hn]
  obtain ⟨hpadded, hrest⟩ := List.append_inj h hlength
  exact ⟨padded_inj hpadded, hrest⟩

theorem dateText_append_inj {d d' : Date} {cs ds : List Char} (hd : d.Valid) (hd' : d'.Valid)
    (h : dateText d ++ cs = dateText d' ++ ds) : d = d' ∧ cs = ds := by
  obtain ⟨hmonth, hday⟩ := hd.bounds
  obtain ⟨hmonth', hday'⟩ := hd'.bounds
  unfold dateText at h
  simp only [List.append_assoc, List.cons_append] at h
  -- The year has no fixed width, but its reader finds where it ends.
  have hspan := congrArg spanYear? h
  rw [spanYear?_yearText, spanYear?_yearText] at hspan
  obtain ⟨hyears, hrest⟩ := Prod.mk.inj (Option.some.inj hspan)
  obtain ⟨hmonths, hrest'⟩ :=
    padded_append_inj (by decide) hmonth hmonth' (List.tail_eq_of_cons_eq hrest)
  obtain ⟨hdays, hrest''⟩ :=
    padded_append_inj (by decide) hday hday' (List.tail_eq_of_cons_eq hrest')
  obtain ⟨year, month, day⟩ := d
  cases hyears
  cases hmonths
  cases hdays
  exact ⟨rfl, hrest''⟩

theorem timeText_append_inj {m n : Nat} {cs ds : List Char} (hm : m < 86400000) (hn : n < 86400000)
    (h : timeText m ++ cs = timeText n ++ ds) : m = n := by
  unfold timeText at h
  simp only [List.append_assoc, List.cons_append] at h
  obtain ⟨hhour, h⟩ := padded_append_inj (by decide) (by omega) (by omega) h
  obtain ⟨hminute, h⟩ :=
    padded_append_inj (by decide) (by omega) (by omega) (List.tail_eq_of_cons_eq h)
  obtain ⟨hsecond, h⟩ :=
    padded_append_inj (by decide) (by omega) (by omega) (List.tail_eq_of_cons_eq h)
  obtain ⟨hmillis, -⟩ :=
    padded_append_inj (by decide) (by omega) (by omega) (List.tail_eq_of_cons_eq h)
  omega

/-- **No two instants have the same text.** -/
theorem render_inj (h : t.render = t'.render) : t = t' := by
  have hdates : t.HasDate ↔ t'.HasDate := by rw [← mem_render_iff, ← mem_render_iff, h]
  refine Timestamp.ext ?_
  by_cases hdate : t.HasDate
  · have hdate' := hdates.mp hdate
    rw [render_of_hasDate hdate, render_of_hasDate hdate', List.append_assoc,
      List.append_assoc] at h
    have hvalid : t.date.Valid := Date.valid_ofDayNumber _
    have hvalid' : t'.date.Valid := Date.valid_ofDayNumber _
    obtain ⟨hday, h⟩ := dateText_append_inj hvalid hvalid' h
    have hclock := timeText_append_inj t.clock_lt t'.clock_lt (List.tail_eq_of_cons_eq h)
    rw [t.millis_eq, t'.millis_eq, hday, hclock]
  · have hdate' := mt hdates.mpr hdate
    rw [render_of_not_hasDate hdate, render_of_not_hasDate hdate'] at h
    exact signed_inj h

theorem text_injective : Function.Injective text := fun _ _ h => render_inj (String.ofList_inj.mp h)

/-! ## The round trip -/

/-- What is read is the instant that was written, or nothing. -/
theorem parse?_render (t : Timestamp) : parse? t.render = if t.ReadsBack then some t else none := by
  by_cases hdate : t.HasDate
  · by_cases hyear : 0 ≤ t.date.year ∧ t.date.year ≤ 9999
    · rw [if_pos (readsBack_iff.mpr (Or.inl hyear)), parse?_of_inYears hdate hyear.1 hyear.2]
    · have hreads : ¬ t.ReadsBack := by
        rw [readsBack_iff]
        exact not_or.mpr ⟨hyear, fun hnone => hnone hdate⟩
      rw [if_neg hreads, parse?_of_signedYear hdate hyear]
  · rw [if_pos (readsBack_iff.mpr (Or.inr hdate)), parse?_of_tooFar hdate]

theorem parse_text (t : Timestamp) :
    parse t.text = if t.ReadsBack then .ok t else .error ⟨t.text⟩ := by
  unfold parse
  have hread := parse?_render t
  unfold text
  rw [String.toList_ofList, hread]
  split
  · rename_i hsome
    split at hsome
    · cases hsome
      rw [if_pos (by assumption)]
    · cases hsome
  · rename_i hnone
    split at hnone
    · cases hnone
    · rw [if_neg (by assumption)]

/-- **The text of an instant is read back as this instant** if its year has four digits or is too
far off for a date. Any other text is an error, and never another instant; and yet no two instants
have the same text. -/
theorem text_round_trip :
    (∀ t : Timestamp, parse t.text = if t.ReadsBack then .ok t else .error ⟨t.text⟩) ∧
      Function.Injective text :=
  ⟨parse_text, text_injective⟩

end Outbox.Timestamp
