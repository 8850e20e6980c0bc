import Outbox.Config

/-!
# Limits are kept as whole milliseconds

A limit is set as a span of time and stored as a word that counts milliseconds. What is below a
millisecond is cut, and counting stops at the largest word. So what is read back is the longest of
the spans that a word can count and that are not longer than the one that was set. This is
`Duration.ofMillis_le_iff`, and it makes storing respect the order of spans. How much is cut comes
from the exact count (`Duration.toNat_storedMillis`).

* `Duration.keptAs`: what becomes of one span that is stored.
* `Config.limits_eq`: the limits that a sync works with are the spans that are read back.
* `Config.limits_kept`: both limits are kept so, and setting one changes nothing else.
-/

namespace Outbox

namespace Duration

variable {d e : Duration} {millis : UInt64}

/-! ## Spans -/

theorem le_def : d ≤ e ↔ d.totalNanos ≤ e.totalNanos := Iff.rfl

/-- The whole milliseconds of the seconds and of the rest are those of all nanoseconds. -/
theorem wholeMillis_eq (d : Duration) : d.wholeMillis = d.totalNanos / 1000000 := by
  unfold wholeMillis totalNanos
  omega

theorem totalNanos_ofMillis (millis : UInt64) :
    (ofMillis millis).totalNanos = millis.toNat * 1000000 := by
  have hfits : millis.toNat / 1000 < UInt64.size :=
    Nat.lt_of_le_of_lt (Nat.div_le_self _ _) millis.toNat_lt_size
  have hseconds : (ofMillis millis).seconds.toNat = millis.toNat / 1000 :=
    UInt64.toNat_ofNat_of_lt' hfits
  have hnanos : (ofMillis millis).nanos = millis.toNat % 1000 * 1000000 := rfl
  unfold totalNanos
  rw [hseconds, hnanos]
  omega

theorem wholeMillis_ofMillis (millis : UInt64) : (ofMillis millis).wholeMillis = millis.toNat := by
  rw [wholeMillis_eq, totalNanos_ofMillis, Nat.mul_div_cancel _ (by decide)]

/-! ## Spans that are stored -/

theorem toNat_le_max (millis : UInt64) : millis.toNat ≤ UInt64.size - 1 :=
  Nat.le_sub_one_of_lt millis.toNat_lt_size

/-- The count that is stored: the whole milliseconds, as far as a word can count. -/
theorem toNat_storedMillis (d : Duration) :
    d.storedMillis.toNat = min (d.totalNanos / 1000000) (UInt64.size - 1) := by
  have hmax : maxUnsigned = ((UInt64.size - 1 : Nat) : Int) := rfl
  unfold storedMillis
  rw [hmax, d.wholeMillis_eq]
  split
  · rename_i hfits
    have hle : d.totalNanos / 1000000 ≤ UInt64.size - 1 := Int.ofNat_le.mp hfits
    rw [Nat.min_eq_left hle, UInt64.toNat_ofNat_of_lt' (Nat.lt_of_le_pred (by decide) hle)]
  · rename_i hover
    have hge : UInt64.size - 1 ≤ d.totalNanos / 1000000 :=
      Nat.le_of_not_le fun hle => hover (Int.ofNat_le.mpr hle)
    rw [Nat.min_eq_right hge]
    rfl

/-- **The stored count is the largest one that is a span not longer than what was stored.** -/
theorem ofMillis_le_iff : ofMillis millis ≤ d ↔ millis ≤ d.storedMillis := by
  rw [le_def, totalNanos_ofMillis, UInt64.le_iff_toNat_le, toNat_storedMillis, Nat.le_min,
    Nat.le_div_iff_mul_le (by decide)]
  exact (and_iff_left (toNat_le_max millis)).symm

theorem ofMillis_storedMillis_le (d : Duration) : ofMillis d.storedMillis ≤ d :=
  ofMillis_le_iff.mpr (UInt64.le_refl _)

theorem storedMillis_mono (h : d ≤ e) : d.storedMillis ≤ e.storedMillis :=
  ofMillis_le_iff.mp (Nat.le_trans (ofMillis_storedMillis_le d) h)

/-- Counted milliseconds are stored as they are. -/
theorem storedMillis_ofMillis (millis : UInt64) : (ofMillis millis).storedMillis = millis := by
  rw [← UInt64.toNat_inj, toNat_storedMillis, totalNanos_ofMillis,
    Nat.mul_div_cancel _ (by decide), Nat.min_eq_left (toNat_le_max millis)]

theorem ofMillis_le_ofMillis_iff {more : UInt64} :
    ofMillis millis ≤ ofMillis more ↔ millis ≤ more := by
  rw [ofMillis_le_iff, storedMillis_ofMillis]

/-- What becomes of a span `d` that is stored: it is read back as `e`. -/
structure KeptAs (d e : Duration) : Prop where
  /-- Of a span whose milliseconds a word can count, the whole ones are kept. -/
  whole : d.totalNanos / 1000000 < UInt64.size →
    e.totalNanos = d.totalNanos / 1000000 * 1000000
  /-- Of a longer one as many are kept as a word can count. -/
  most : UInt64.size ≤ d.totalNanos / 1000000 → e.totalNanos = (UInt64.size - 1) * 1000000
  /-- No span becomes longer. -/
  le : e ≤ d
  /-- Less than a millisecond is cut if they can be counted. -/
  cut : d.totalNanos / 1000000 < UInt64.size → d.totalNanos < e.totalNanos + 1000000
  /-- No other count that is a span not longer than `d` comes nearer to it. -/
  nearest : ∀ millis, ofMillis millis ≤ d → ofMillis millis ≤ e

theorem keptAs (d : Duration) : d.KeptAs (ofMillis d.storedMillis) := by
  have hwhole (hfits : d.totalNanos / 1000000 < UInt64.size) :
      (ofMillis d.storedMillis).totalNanos = d.totalNanos / 1000000 * 1000000 := by
    rw [totalNanos_ofMillis, toNat_storedMillis, Nat.min_eq_left (Nat.le_sub_one_of_lt hfits)]
  exact
    { whole := hwhole
      most := fun hover => by
        rw [totalNanos_ofMillis, toNat_storedMillis,
          Nat.min_eq_right (Nat.le_trans (Nat.sub_le _ _) hover)]
      le := d.ofMillis_storedMillis_le
      cut := fun hfits => by
        rw [hwhole hfits]
        omega
      nearest := fun millis hle => ofMillis_le_ofMillis_iff.mpr (ofMillis_le_iff.mp hle) }

end Duration

/-! ## Limits of a configuration -/

namespace Config

open Duration

/-- The limits that a sync works with are the spans that are read back. -/
theorem limits_eq (c : Config) :
    c.limits = ⟨c.deliverySpan.map wholeMillis, c.lookupSpan.map wholeMillis⟩ := by
  have hmillis (limit : Option UInt64) :
      limit.map UInt64.toNat = (limit.map ofMillis).map wholeMillis := by
    cases limit with
    | none => rfl
    | some millis => rw [Option.map_some, Option.map_some, Option.map_some, wholeMillis_ofMillis]
  unfold limits deliverySpan lookupSpan
  rw [hmillis, hmillis]

/-- A limit that is set by `set` and read by `read` is kept. -/
structure KeepsLimit (set : Config → Duration → Config) (read : Config → Option Duration) :
    Prop where
  /-- There is a limit, and it is the span as far as it can be counted. -/
  kept : ∀ c d, ∃ e, read (set c d) = some e ∧ d.KeptAs e
  /-- A longer span is not kept as a shorter one. -/
  mono : ∀ c c' d d' e e', d ≤ d' → read (set c d) = some e → read (set c' d') = some e' → e ≤ e'
  /-- Setting what is read changes nothing. -/
  again : ∀ c d e, read (set c d) = some e → set (set c d) e = set c d

/-- A limit is kept if the stored milliseconds are read, and are all that is set. -/
theorem keepsLimit {set : Config → Duration → Config} {read : Config → Option Duration}
    (hread : ∀ c d, read (set c d) = some (ofMillis d.storedMillis))
    (hset : ∀ c d e, e.storedMillis = d.storedMillis → set (set c d) e = set c d) :
    KeepsLimit set read where
  kept c d := ⟨_, hread c d, d.keptAs⟩
  mono c c' d d' e e' hle he he' := by
    rw [hread] at he he'
    cases he
    cases he'
    exact ofMillis_le_ofMillis_iff.mpr (storedMillis_mono hle)
  again c d e he := by
    rw [hread] at he
    cases he
    exact hset c d _ (storedMillis_ofMillis d.storedMillis)

/-- **Limits are kept as whole milliseconds**, as many as a word can count, and are not longer than
they were set. Setting one of them leaves all else in a configuration as it is. -/
theorem limits_kept :
    KeepsLimit setDeliveryLimit deliverySpan ∧ KeepsLimit setLookupLimit lookupSpan ∧
      ∀ (c : Config) (d : Duration),
        { c.setDeliveryLimit d with deliveryLimit := c.deliveryLimit } = c ∧
          { c.setLookupLimit d with lookupLimit := c.lookupLimit } = c := by
  have hdelivery : KeepsLimit setDeliveryLimit deliverySpan := by
    refine keepsLimit (fun _ _ => rfl) fun c d e h => ?_
    unfold setDeliveryLimit
    rw [h]
  have hlookup : KeepsLimit setLookupLimit lookupSpan := by
    refine keepsLimit (fun _ _ => rfl) fun c d e h => ?_
    unfold setLookupLimit
    rw [h]
  exact ⟨hdelivery, hlookup, fun _ _ => ⟨rfl, rfl⟩⟩

/-- Not quite two milliseconds. -/
def sampleShort : Duration := ⟨0, 1999900, by decide⟩

/-- The longest span of all. -/
def sampleLongest : Duration := ⟨18446744073709551615, 999999999, by decide⟩

/-- The one is cut to a millisecond, and the other one is kept as the longest limit: its count does
not start again from zero. -/
theorem limits_kept_sample :
    sampleShort.KeptAs (ofMillis 1) ∧ sampleLongest.KeptAs (ofMillis 18446744073709551615) ∧
      ofMillis 1 ≤ ofMillis 18446744073709551615 := by
  have hshort : (default.setDeliveryLimit sampleShort).deliverySpan = some (ofMillis 1) := by decide
  have hlongest : (default.setDeliveryLimit sampleLongest).deliverySpan =
      some (ofMillis 18446744073709551615) := by decide
  obtain ⟨e, he, hkept⟩ := limits_kept.1.kept default sampleShort
  obtain ⟨e', he', hkept'⟩ := limits_kept.1.kept default sampleLongest
  cases hshort.symm.trans he
  cases hlongest.symm.trans he'
  exact ⟨hkept, hkept', limits_kept.1.mono _ _ _ _ _ _ (by decide) hshort hlongest⟩

end Config
end Outbox
