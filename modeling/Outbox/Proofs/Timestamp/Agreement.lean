import Outbox.Proofs.Timestamp.RoundTrip

/-!
# The notations agree

What can be written in more than one way is read as the same instant: a date and its first instant,
an instant and its local date and time at any offset (`parse?_localText`), second 60 of a minute and
second 0 of the next one (`parse?_leapSecond`). All but the date itself are cases of a minute that
is written with a second, a fraction and an offset (`Minute.parse?_text`).

* `Zone`: the ways to write an offset. There is one for each offset of less than a day
  (`exists_zone_iff`).
* `notations_agree`: the notations agree and never compete.
-/

namespace Outbox.Timestamp

open Calendar Decimal

/-! ## Offsets -/

/-- The hours and minutes of an offset. -/
def offsetText (minutes : Nat) : List Char :=
  padded 2 (minutes / 60) ++ ':' :: padded 2 (minutes % 60)

/-- The signs in front of an offset that is behind UTC: the hyphen and the minus sign U+2212. -/
def minusSigns : List Char := ['-', Char.ofNat 0x2212]

/-- The ways to write an offset of less than a day, in minutes. -/
inductive Zone : List Char → Int → Prop where
  | upper : Zone ['Z'] 0
  | lower : Zone ['z'] 0
  | ahead {minutes : Nat} : minutes < 1440 → Zone ('+' :: offsetText minutes) minutes
  | behind {minutes : Nat} {sign : Char} :
      minutes < 1440 → sign ∈ minusSigns → Zone (sign :: offsetText minutes) (-minutes)

variable {zone : List Char} {offset : Int}

theorem readOffset?_offsetText {minutes : Nat} (h : minutes < 1440) (sign : Char) :
    readOffset? (sign :: offsetText minutes) =
      if sign = '+' then some (minutes : Int) else if isMinus sign then some (-(minutes : Int))
      else none := by
  have hhours : readUpTo? 23 (padded 2 (minutes / 60)) = some (minutes / 60) :=
    readUpTo?_padded 2 (by omega)
  have hminutes : readUpTo? 59 (padded 2 (minutes % 60)) = some (minutes % 60) :=
    readUpTo?_padded 2 (by omega)
  obtain ⟨a, b, hab⟩ := padded_two (n := minutes / 60) (by omega)
  obtain ⟨c, d, hcd⟩ := padded_two (n := minutes % 60) (by omega)
  have hsum : 60 * (minutes / 60) + minutes % 60 = minutes := by omega
  unfold offsetText
  rw [hab] at hhours ⊢
  rw [hcd] at hminutes ⊢
  simp only [List.cons_append, List.nil_append, readOffset?, hhours, hminutes, Option.bind_eq_bind,
    Option.bind_some, hsum]

/-- **An offset is read, however it is written.** -/
theorem Zone.readOffset? (h : Zone zone offset) : readOffset? zone = some offset := by
  cases h with
  | upper => rfl
  | lower => rfl
  | ahead hday => rw [readOffset?_offsetText hday, if_pos rfl]
  | behind hday hsign =>
    have hsigns : ∀ sign ∈ minusSigns, sign ≠ '+' ∧ isMinus sign = true := by
      simp [minusSigns, isMinus]
    obtain ⟨hplus, hminus⟩ := hsigns _ hsign
    rw [readOffset?_offsetText hday, if_neg hplus, if_pos hminus]

/-- The offsets of less than a day are those that can be written. -/
theorem exists_zone_iff : (∃ zone, Zone zone offset) ↔ -1440 < offset ∧ offset < 1440 := by
  constructor
  · rintro ⟨zone, hzone⟩
    cases hzone <;> omega
  · rintro ⟨hlow, hhigh⟩
    obtain ⟨minutes, rfl | rfl⟩ := Int.eq_nat_or_neg offset
    · exact ⟨_, .ahead (by omega)⟩
    · exact ⟨_, .behind (by omega) List.mem_cons_self⟩

/-! ## Minutes -/

/-- A minute of the years 0 to 9999. -/
structure Minute where
  date : Date
  hour : Nat
  minute : Nat
  valid : date.Valid
  inYears : 0 ≤ date.year ∧ date.year ≤ 9999
  inDay : hour ≤ 23
  inHour : minute ≤ 59

namespace Minute

/-- The number of a minute, from the epoch on. -/
def number (m : Minute) : Int := 1440 * m.date.dayNumber + 60 * m.hour + m.minute

/-- An instant of a minute as it is written: with a second, the digits of a fraction if there are
any, and an offset. -/
def text (m : Minute) (separator : Char) (second : Nat) (fraction zone : List Char) : List Char :=
  dateText m.date ++ separator :: (padded 2 m.hour ++ ':' :: (padded 2 m.minute ++
    ':' :: (padded 2 second ++ (fractionText fraction ++ zone))))

variable {m : Minute} {separator : Char} {second : Nat} {fraction : List Char}

/-- A minute begins with a digit and ends with its offset, so it is trimmed already. -/
theorem trim_text (hzone : Zone zone offset) :
    Text.trim (m.text separator second fraction zone) = m.text separator second fraction zone := by
  obtain ⟨-, c, hc, hblank⟩ := ends_of_readOffset? hzone.readOffset?
  refine Text.trim_of_ends ?_ ?_
  · obtain ⟨hlow, hhigh⟩ := m.inYears
    have hyear : m.date.year.toNat < 10 ^ 4 := by omega
    have hdigits : ∀ c ∈ padded 4 m.date.year.toNat, isDigit c = true := fun c hc =>
      isDigit_of_mem_padded hc
    obtain ⟨y₁, y₂, y₃, y₄, hy⟩ := padded_four hyear
    rw [hy] at hdigits
    unfold text dateText yearText
    rw [if_pos m.inYears, hy]
    intro c hc
    cases hc
    exact Text.isBlank_of_isDigit (hdigits y₁ List.mem_cons_self)
  · have hends : m.text separator second fraction zone =
        m.text separator second fraction [] ++ zone := by simp [text]
    rw [hends, List.getLast?_append, Option.mem_def.mp hc]
    intro c' hc'
    cases hc'
    exact hblank

/-- **An instant of a minute is read**, also if it is one of second 60. -/
theorem parse?_text (hsecond : second ≤ 60) (hseparator : separator ∈ ['T', 't', ' '])
    (hfraction : ∀ c ∈ fraction, isDigit c = true) (hzone : Zone zone offset) {t : Timestamp}
    (ht : t.millis =
      60000 * m.number + 1000 * second + fractionMillis fraction - 60000 * offset) :
    parse? (m.text separator second fraction zone) = some t := by
  have hread : readInstant? ∈ readers := by simp [readers]
  refine parse?_of_reads hread ?_
  rw [trim_text hzone]
  unfold text
  rw [readInstant?_written m.valid m.inYears m.inDay m.inHour hsecond hseparator hfraction
    hzone.readOffset?, ht]
  unfold number dayMillis
  congr 1
  push_cast
  omega

/-- The instants of a minute are in range. -/
theorem exists_instant (hsecond : second ≤ 60) (hfraction : ∀ c ∈ fraction, isDigit c = true)
    (hzone : Zone zone offset) : ∃ t : Timestamp, t.millis =
      60000 * m.number + 1000 * second + fractionMillis fraction - 60000 * offset := by
  have hoffset := exists_zone_iff.mp ⟨zone, hzone⟩
  have hyear := m.valid.inYear
  have hfirst := daysBeforeYear_mono m.inYears.1
  have hlast := daysBeforeYear_mono (Int.add_le_add_right m.inYears.2 1)
  have hmillis := fractionMillis_lt hfraction
  have hzero : daysBeforeYear 0 = 0 := rfl
  have hend : daysBeforeYear (9999 + 1) = 3652425 := rfl
  refine ⟨⟨_, ?_⟩, rfl⟩
  have hhour := m.inDay
  have hminute := m.inHour
  unfold number epochDay minSigned maxSigned at *
  omega

end Minute

/-! ## Local times -/

/-- The date of an instant where clocks are ahead of UTC by an offset. -/
def localDate (t : Timestamp) (offset : Int) : Date :=
  Date.ofDayNumber ((t.millis + 60000 * offset) / dayMillis)

/-- The time of day of an instant there, in milliseconds. -/
def localClock (t : Timestamp) (offset : Int) : Nat :=
  ((t.millis + 60000 * offset) % dayMillis).toNat

/-- The local date and time of an instant, with further digits of a fraction. -/
def localText (t : Timestamp) (offset : Int) (separator : Char) (extra zone : List Char) :
    List Char :=
  dateText (t.localDate offset) ++ separator :: (timeText (t.localClock offset) ++ (extra ++ zone))

variable {t : Timestamp} {separator : Char} {extra : List Char}

/-- **A local date and time is read as the instant that it is about.** -/
theorem parse?_localText
    (hyears : 0 ≤ (t.localDate offset).year ∧ (t.localDate offset).year ≤ 9999)
    (hseparator : separator ∈ ['T', 't', ' ']) (hextra : ∀ c ∈ extra, isDigit c = true)
    (hzone : Zone zone offset) : parse? (t.localText offset separator extra zone) = some t := by
  have hmillis : t.millis + 60000 * offset =
      (t.localDate offset).dayNumber * dayMillis + t.localClock offset := (split_millis _).1
  have hclock : t.localClock offset < 86400000 := (split_millis _).2
  let m : Minute := ⟨t.localDate offset, t.localClock offset / 3600000,
    t.localClock offset / 60000 % 60, Date.valid_ofDayNumber _, hyears, by omega, by omega⟩
  have htext : t.localText offset separator extra zone =
      m.text separator (t.localClock offset / 1000 % 60)
        (padded 3 (t.localClock offset % 1000) ++ extra) zone := by
    unfold localText Minute.text
    rw [timeText_append, fractionText_append (padded_ne_nil 3 _), List.append_assoc]
  rw [htext]
  refine m.parse?_text (by omega) hseparator ?_ hzone ?_
  · exact List.forall_mem_append.mpr ⟨fun c hc => isDigit_of_mem_padded hc, hextra⟩
  · rw [fractionMillis_padded_append (by omega)]
    unfold Minute.number
    unfold dayMillis at hmillis
    simp only [m]
    push_cast
    omega

/-! ## Dates -/

theorem trim_dateText {d : Date} (hyears : 0 ≤ d.year ∧ d.year ≤ 9999) :
    Text.trim (dateText d) = dateText d := by
  refine Text.trim_of_forall fun c hc => ?_
  have hchar : isDigit c = true ∨ c = '-' := by
    unfold dateText yearText at hc
    rw [if_pos hyears] at hc
    simp only [List.mem_append, List.mem_cons] at hc
    grind [isDigit_of_mem_padded]
  rcases hchar with hdigit | rfl
  · exact Text.isBlank_of_isDigit hdigit
  · rfl

/-- The first minute of a date. -/
def Minute.first {d : Date} (hd : d.Valid) (hyears : 0 ≤ d.year ∧ d.year ≤ 9999) : Minute :=
  ⟨d, 0, 0, hd, hyears, Nat.zero_le 23, Nat.zero_le 59⟩

theorem Minute.number_first {d : Date} (hd : d.Valid) (hyears : 0 ≤ d.year ∧ d.year ≤ 9999) :
    (first hd hyears).number = 1440 * d.dayNumber := by simp [number, first]

theorem Minute.text_first {d : Date} (hd : d.Valid) (hyears : 0 ≤ d.year ∧ d.year ≤ 9999) :
    (first hd hyears).text 'T' 0 [] ['Z'] = dateText d ++ "T00:00:00Z".toList := by
  have hzero : padded 2 0 = ['0', '0'] := rfl
  simp [text, first, hzero, fractionText]

/-- **A date is read as its first instant**, and so is this instant when it is written out. -/
theorem parse?_dateText {d : Date} (hd : d.Valid) (hyears : 0 ≤ d.year ∧ d.year ≤ 9999) :
    ∃ t : Timestamp, t.millis = firstMillis d ∧ parse? (dateText d) = some t ∧
      parse? (dateText d ++ "T00:00:00Z".toList) = some t := by
  have hnone : ∀ c ∈ ([] : List Char), isDigit c = true := fun _ hc => absurd hc List.not_mem_nil
  obtain ⟨t, ht⟩ := Minute.exists_instant (m := .first hd hyears) (Nat.zero_le 60) hnone .upper
  have hmillis : t.millis = firstMillis d := by
    have hfraction : fractionMillis [] = 0 := rfl
    rw [ht, hfraction, Minute.number_first]
    unfold firstMillis dayMillis
    omega
  have hwritten : leastYear ≤ d.year ∧ d.year ≤ greatestYear := by
    unfold leastYear greatestYear
    omega
  have hread : readDate? ∈ readers := by simp [readers]
  have hdate := readDate?_dateText hd []
  rw [List.append_nil, if_pos ⟨rfl, hwritten⟩] at hdate
  refine ⟨t, hmillis, parse?_of_reads hread ?_, ?_⟩
  · rw [trim_dateText hyears, hdate, hmillis]
    rfl
  · rw [← Minute.text_first hd hyears]
    exact Minute.parse?_text (Nat.zero_le 60) List.mem_cons_self hnone .upper ht

/-! ## Second 60 -/

/-- Second 60 is the first second of the minute that follows. -/
theorem parse?_leapSecond (m : Minute) {fraction : List Char}
    (hseparator : separator ∈ ['T', 't', ' ']) (hfraction : ∀ c ∈ fraction, isDigit c = true)
    (hzone : Zone zone offset) :
    ∃ t : Timestamp,
      t.millis = 60000 * (m.number + 1) + fractionMillis fraction - 60000 * offset ∧
      parse? (m.text separator 60 fraction zone) = some t ∧
      ∀ next : Minute, next.number = m.number + 1 →
        parse? (next.text separator 0 fraction zone) = some t := by
  obtain ⟨t, ht⟩ := Minute.exists_instant (m := m) (Nat.le_refl 60) hfraction hzone
  refine ⟨t, by omega, Minute.parse?_text (Nat.le_refl 60) hseparator hfraction hzone ht, ?_⟩
  intro next hnext
  refine Minute.parse?_text (Nat.zero_le 60) hseparator hfraction hzone ?_
  omega

/-! ## The three notations -/

theorem parse_of_parse? {cs : List Char} (h : parse? cs = some t) :
    parse (String.ofList cs) = .ok t := by
  unfold parse
  rw [String.toList_ofList, h]

/-- What the three notations have to do with each other. -/
structure Agreement : Prop where
  /-- One notation at most reads a text. -/
  apart : ∀ input : String, readers.Pairwise fun read read' =>
    read (Text.trim input.toList) = none ∨ read' (Text.trim input.toList) = none
  /-- So they may be tried in any order. -/
  unordered : ∀ (order : List (List Char → Option Int)) (input : String),
    order.Perm readers → parseIn? order input.toList = parse? input.toList
  /-- A number is read as that many milliseconds. -/
  numbers : ∀ t : Timestamp, parse (String.ofList (signed t.millis)) = .ok t
  /-- A date is read as its first instant, and so is this instant when it is written out. -/
  dates : ∀ d : Date, d.Valid → 0 ≤ d.year ∧ d.year ≤ 9999 → ∃ t : Timestamp,
    t.millis = firstMillis d ∧ parse (String.ofList (dateText d)) = .ok t ∧
      parse (String.ofList (dateText d ++ "T00:00:00Z".toList)) = .ok t
  /-- An instant is read from its local date and time, at any offset and with any further digits. -/
  localTimes : ∀ (t : Timestamp) (offset : Int) (separator : Char) (extra zone : List Char),
    0 ≤ (t.localDate offset).year ∧ (t.localDate offset).year ≤ 9999 →
      separator ∈ ['T', 't', ' '] → (∀ c ∈ extra, isDigit c = true) → Zone zone offset →
        parse (String.ofList (t.localText offset separator extra zone)) = .ok t
  /-- Second 60 is read as second 0 of the minute that follows. -/
  leapSeconds : ∀ (m : Minute) (offset : Int) (separator : Char) (fraction zone : List Char),
    separator ∈ ['T', 't', ' '] → (∀ c ∈ fraction, isDigit c = true) → Zone zone offset →
      ∃ t : Timestamp,
        t.millis = 60000 * (m.number + 1) + fractionMillis fraction - 60000 * offset ∧
        parse (String.ofList (m.text separator 60 fraction zone)) = .ok t ∧
        ∀ next : Minute, next.number = m.number + 1 →
          parse (String.ofList (next.text separator 0 fraction zone)) = .ok t

/-- **The notations agree and never compete.** -/
theorem notations_agree : Agreement where
  apart _ := readers_apart _
  unordered _ _ h := parseIn?_of_perm h _
  numbers t := parse_of_parse? (parse?_signed t)
  dates d hd hyears := by
    obtain ⟨t, hmillis, hdate, hwritten⟩ := parse?_dateText hd hyears
    exact ⟨t, hmillis, parse_of_parse? hdate, parse_of_parse? hwritten⟩
  localTimes _ _ _ _ _ hyears hseparator hextra hzone :=
    parse_of_parse? (parse?_localText hyears hseparator hextra hzone)
  leapSeconds m _ _ _ _ hseparator hfraction hzone := by
    obtain ⟨t, hmillis, hleap, hnext⟩ := parse?_leapSecond m hseparator hfraction hzone
    refine ⟨t, hmillis, parse_of_parse? hleap, fun next hfollows => ?_⟩
    exact parse_of_parse? (hnext next hfollows)

/-- Half a second into second 60 of the last minute of a leap day, behind UTC. -/
example : parse "2024-02-29T23:59:60.5-00:30" = .ok ⟨1709253000500, by decide⟩ := by decide

end Outbox.Timestamp
