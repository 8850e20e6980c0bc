import Mathlib.Algebra.Ring.Nat
import Outbox.Text.Decimal

/-!
# Numerals are read back

`readNat?` gives back what `digits` and `padded` write, zeros in front or not, and `readInt?` what
`signed` writes. The reverse direction is as exact as a caller needs it: what `readNat?` reads has
digits only (`readNat?_eq_some`), and what `readInt?` reads has them from its second character on
(`isDigit_of_readInt?`).
-/

namespace Outbox.Decimal

variable {c : Char} {cs ds : List Char} {n : Nat}

/-! ## Digits -/

theorem isDigit_iff : isDigit c = true ↔ 48 ≤ c.toNat ∧ c.toNat ≤ 57 := by
  unfold isDigit
  rw [Bool.and_eq_true, decide_eq_true_eq, decide_eq_true_eq]
  exact Iff.rfl

theorem digits_ne_nil (n : Nat) : digits n ≠ [] := Nat.toDigits_ne_nil

theorem isDigit_of_mem_digits (h : c ∈ digits n) : isDigit c = true :=
  isDigit_iff.mpr
    (Char.isDigit_iff_toNat.mp (Nat.isDigit_of_mem_toDigits (by decide) (by decide) h))

theorem isDigit_of_mem_padded {width : Nat} (h : c ∈ padded width n) : isDigit c = true := by
  unfold padded at h
  rcases List.mem_append.mp h with h | h
  · rw [List.eq_of_mem_replicate h]
    rfl
  · exact isDigit_of_mem_digits h

theorem padded_ne_nil (width n : Nat) : padded width n ≠ [] :=
  List.append_ne_nil_of_right_ne_nil _ (digits_ne_nil n)

/-- A number that fits is written with as many digits as asked for. -/
theorem length_padded {width : Nat} (hwidth : 0 < width) (h : n < 10 ^ width) :
    (padded width n).length = width := by
  have hlength : (digits n).length ≤ width :=
    (Nat.length_toDigits_le_iff (by decide) hwidth).mpr h
  unfold padded
  rw [List.length_append, List.length_replicate]
  omega

/-! ## Numbers -/

theorem ofDigits_digits (n : Nat) : ofDigits (digits n) = n := Nat.ofDigitChars_ten_toDigits

theorem ofDigits_padded (width n : Nat) : ofDigits (padded width n) = n := by
  have hzeros : ∀ count, ofDigits (List.replicate count '0' ++ digits n) = ofDigits (digits n) := by
    intro count
    induction count with
    | zero => rfl
    | succ count ih => exact ih
  exact (hzeros _).trans (ofDigits_digits n)

/-- Digits denote a number that can be written with as many of them. -/
theorem ofDigits_lt (h : ∀ c ∈ cs, isDigit c = true) : ofDigits cs < 10 ^ cs.length := by
  have hfold : ∀ n, cs.foldl (fun n c => 10 * n + digitValue c) n < (n + 1) * 10 ^ cs.length := by
    induction cs with
    | nil => exact fun n => by simp
    | cons c cs ih =>
      obtain ⟨hc, hcs⟩ := List.forall_mem_cons.mp h
      have hvalue : digitValue c ≤ 9 := by
        have hhigh := (isDigit_iff.mp hc).2
        unfold digitValue
        change c.toNat - 48 ≤ 9
        omega
      intro n
      calc cs.foldl (fun n c => 10 * n + digitValue c) (10 * n + digitValue c)
          < (10 * n + digitValue c + 1) * 10 ^ cs.length := ih hcs _
        _ ≤ (n + 1) * 10 * 10 ^ cs.length := Nat.mul_le_mul_right _ (by omega)
        _ = (n + 1) * 10 ^ (c :: cs).length := by
          rw [List.length_cons, Nat.pow_succ', Nat.mul_assoc]
  exact Nat.lt_of_lt_of_eq (hfold 0) (by rw [Nat.zero_add, Nat.one_mul])

theorem readNat?_of_forall (hne : cs ≠ []) (h : ∀ c ∈ cs, isDigit c = true) :
    readNat? cs = some (ofDigits cs) :=
  if_pos ⟨hne, List.all_eq_true.mpr h⟩

theorem readNat?_eq_some (h : readNat? cs = some n) :
    cs ≠ [] ∧ (∀ c ∈ cs, isDigit c = true) ∧ ofDigits cs = n := by
  unfold readNat? at h
  split at h
  · rename_i hcs
    exact ⟨hcs.1, List.all_eq_true.mp hcs.2, Option.some.inj h⟩
  · cases h

/-- **What is written is read back**, with zeros in front. -/
theorem readNat?_padded (width n : Nat) : readNat? (padded width n) = some n := by
  rw [readNat?_of_forall (padded_ne_nil width n) fun c hc => isDigit_of_mem_padded hc,
    ofDigits_padded]

theorem readNat?_digits (n : Nat) : readNat? (digits n) = some n := by
  rw [readNat?_of_forall (digits_ne_nil n) fun c hc => isDigit_of_mem_digits hc, ofDigits_digits]

theorem padded_inj {width m n : Nat} (h : padded width m = padded width n) : m = n := by
  have hread := readNat?_padded width m
  rw [h, readNat?_padded] at hread
  exact (Option.some.inj hread).symm

/-! ## Signs -/

/-- Only a numeral without a sign is read as a whole. -/
theorem readInt?_of_isDigit (hc : isDigit c = true) :
    readInt? (c :: cs) = (readNat? (c :: cs)).map Int.ofNat := by
  unfold readInt?
  split
  · rename_i heq
    cases heq
    cases hc
  · rename_i heq
    cases heq
    cases hc
  · rfl

/-- **Integers are read back.** -/
theorem readInt?_signed (n : Int) : readInt? (signed n) = some n := by
  cases n with
  | ofNat n =>
    have hread : readInt? (digits n) = (readNat? (digits n)).map Int.ofNat := by
      cases hcs : digits n with
      | nil => exact absurd hcs (digits_ne_nil n)
      | cons c cs =>
        have hmem : c ∈ digits n := hcs ▸ List.mem_cons_self
        exact readInt?_of_isDigit (isDigit_of_mem_digits hmem)
    rw [readNat?_digits] at hread
    exact hread
  | negSucc n =>
    have hread : readInt? (signed (.negSucc n)) =
        (readNat? (digits (n + 1))).map fun (n : Nat) => -(n : Int) := rfl
    rw [hread, readNat?_digits]
    rfl

theorem signed_inj {m n : Int} (h : signed m = signed n) : m = n := by
  have hread := readInt?_signed m
  rw [h, readInt?_signed] at hread
  exact (Option.some.inj hread).symm

/-- Behind a first character that may be a sign there are digits only. -/
theorem isDigit_of_readInt? {n : Int} (h : readInt? cs = some n) :
    ∀ c ∈ cs.tail, isDigit c = true := by
  unfold readInt? at h
  split at h
  · obtain ⟨m, hm, -⟩ := Option.map_eq_some_iff.mp h
    exact (readNat?_eq_some hm).2.1
  · obtain ⟨m, hm, -⟩ := Option.map_eq_some_iff.mp h
    exact (readNat?_eq_some hm).2.1
  · obtain ⟨m, hm, -⟩ := Option.map_eq_some_iff.mp h
    exact fun c hc => (readNat?_eq_some hm).2.1 c (List.mem_of_mem_tail hc)

theorem isDigit_of_mem_signed {n : Int} (h : c ∈ signed n) : c = '-' ∨ isDigit c = true := by
  cases n with
  | ofNat n => exact Or.inr (isDigit_of_mem_digits h)
  | negSucc n =>
    rcases List.mem_cons.mp h with rfl | h
    · exact Or.inl rfl
    · exact Or.inr (isDigit_of_mem_digits h)

/-! ## Spans of digits -/

/-- The digits in front of a text that goes on with another character. -/
theorem span_isDigit (hds : ∀ c ∈ ds, isDigit c = true) (hc : isDigit c = false)
    (cs : List Char) :
    (ds ++ c :: cs).takeWhile isDigit = ds ∧ (ds ++ c :: cs).dropWhile isDigit = c :: cs := by
  rw [List.takeWhile_append_of_pos hds, List.dropWhile_append_of_pos hds,
    List.takeWhile_cons_of_neg (Bool.eq_false_iff.mp hc),
    List.dropWhile_cons_of_neg (Bool.eq_false_iff.mp hc), List.append_nil]
  exact ⟨rfl, rfl⟩

end Outbox.Decimal
