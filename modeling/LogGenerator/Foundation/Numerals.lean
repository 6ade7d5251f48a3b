import LogGenerator.Foundation.Calendar
import LogGenerator.Foundation.FromChars

/-!
# Numerals of a fixed width

Digit strings of a known length, as a padded number is written and as its
leading digits are read.
-/

namespace LogGenerator

open Ascii

variable {ds : Bytes} {width : ℕ}

theorem decimalValue_foldl (start : ℕ) (ds : Bytes) :
    ds.foldl (fun value b => 10 * value + (b.toNat - 48)) start =
      start * 10 ^ ds.length + decimalValue ds := by
  unfold decimalValue
  induction ds generalizing start with
  | nil => simp
  | cons b ds ih =>
    rw [List.foldl_cons, ih, List.foldl_cons, ih (10 * 0 + _), List.length_cons, pow_succ]
    ring

theorem decimalValue_append (ds es : Bytes) :
    decimalValue (ds ++ es) = decimalValue ds * 10 ^ es.length + decimalValue es := by
  rw [decimalValue, List.foldl_append, ← decimalValue, decimalValue_foldl]

theorem decimalValue_cons (b : UInt8) (ds : Bytes) :
    decimalValue (b :: ds) = (b.toNat - 48) * 10 ^ ds.length + decimalValue ds := by
  rw [decimalValue, List.foldl_cons, decimalValue_foldl, Nat.mul_zero, Nat.zero_add]

theorem digit_le {b : UInt8} (h : isDigit b = true) : 48 ≤ b.toNat ∧ b.toNat ≤ 57 := by
  revert h
  revert b
  decide

theorem decimalValue_lt (h : ∀ b ∈ ds, isDigit b = true) : decimalValue ds < 10 ^ ds.length := by
  induction ds with
  | nil => simp [decimalValue]
  | cons b ds ih =>
    rw [List.forall_mem_cons] at h
    have hb := digit_le h.1
    have hds := ih h.2
    have hdigit : b.toNat - 48 ≤ 9 := by omega
    calc decimalValue (b :: ds)
        = (b.toNat - 48) * 10 ^ ds.length + decimalValue ds := decimalValue_cons b ds
      _ < 9 * 10 ^ ds.length + 10 ^ ds.length :=
          Nat.add_lt_add_of_le_of_lt (Nat.mul_le_mul_right _ hdigit) hds
      _ = 10 ^ (b :: ds).length := by
          rw [List.length_cons, pow_succ]
          ring

theorem length_decimal_le {n : ℕ} (hwidth : 0 < width) (h : n < 10 ^ width) :
    (decimal n).length ≤ width := by
  unfold decimal
  split_ifs with hzero
  · exact hwidth
  · rw [List.length_reverse, List.length_map]
    exact (Nat.digits_length_le_iff (by decide) n).mpr h

/-- A string of so many digits that denotes the number. -/
structure IsNumeral (width : ℕ) (n : ℤ) (ds : Bytes) : Prop where
  length_eq : ds.length = width
  digits : ∀ b ∈ ds, isDigit b = true
  value_eq : decimalValue ds = n

variable {n : ℤ}

theorem eq_of_decimalValue_eq {es : Bytes} (hds : ∀ b ∈ ds, isDigit b = true)
    (hes : ∀ b ∈ es, isDigit b = true) (hlength : ds.length = es.length)
    (h : decimalValue ds = decimalValue es) : ds = es := by
  induction ds generalizing es with
  | nil => exact (List.length_eq_zero_iff.mp hlength.symm).symm
  | cons b ds ih =>
    cases es with
    | nil => cases hlength
    | cons c es =>
      rw [List.forall_mem_cons] at hds hes
      have htail : ds.length = es.length := Nat.succ.inj hlength
      have hb := digit_le hds.1
      have hc := digit_le hes.1
      have hrest := decimalValue_lt hds.2
      have hrest' := decimalValue_lt hes.2
      rw [decimalValue_cons, decimalValue_cons, ← htail] at h
      rw [← htail] at hrest'
      have hhead : b.toNat - 48 = c.toNat - 48 := by
        have hquotient := congrArg (· / 10 ^ ds.length) h
        have hpos : 0 < 10 ^ ds.length := by positivity
        simpa [Nat.mul_add_div hpos, Nat.add_div_of_dvd_right, Nat.mul_comm _ (10 ^ ds.length),
          Nat.div_eq_of_lt hrest, Nat.div_eq_of_lt hrest'] using hquotient
      rw [hhead] at h
      have hbyte : b = c := UInt8.toNat_inj.mp (by omega)
      rw [hbyte, ih hds.2 hes.2 htail (Nat.add_left_cancel h)]

/-- A number has one numeral of each width. -/
theorem IsNumeral.eq {es : Bytes} (h : IsNumeral width n ds) (h' : IsNumeral width n es) :
    ds = es := by
  apply eq_of_decimalValue_eq h.digits h'.digits (h.length_eq.trans h'.length_eq.symm)
  exact_mod_cast h.value_eq.trans h'.value_eq.symm

theorem IsNumeral.not_mem (h : IsNumeral width n ds) {b : UInt8} (hb : isDigit b = false) :
    b ∉ ds := by
  intro hmem
  rw [h.digits b hmem] at hb
  cases hb

theorem IsNumeral.eq_pair (h : IsNumeral 2 n ds) : ∃ b c, ds = [b, c] ∧
    (isDigit b = true ∧ isDigit c = true) ∧ n = 10 * (b.toNat - 48) + (c.toNat - 48) := by
  obtain ⟨hlength, hdigits, rfl⟩ := h
  obtain ⟨b, c, rfl⟩ := List.length_eq_two.mp hlength
  have hb := hdigits b (by simp)
  have hc := hdigits c (by simp)
  refine ⟨b, c, rfl, ⟨hb, hc⟩, ?_⟩
  have hb' := digit_le hb
  have hc' := digit_le hc
  simp only [decimalValue, List.foldl_cons, List.foldl_nil]
  omega

theorem zeroPadded_natCast (width n : ℕ) : zeroPadded width n =
    List.replicate (width - (decimal n).length) (digit 0) ++ decimal n := by
  have hsign : ¬ (n : ℤ) < 0 := by omega
  simp [zeroPadded, hsign]

/-- Padding leaves a number of more digits as it is. -/
theorem isNumeral_zeroPadded_max (width n : ℕ) :
    IsNumeral (max width (decimal n).length) n (zeroPadded width n) := by
  rw [zeroPadded_natCast]
  constructor
  · rw [List.length_append, List.length_replicate]
    omega
  · intro b hb
    rcases List.mem_append.mp hb with hb | hb
    · rw [List.eq_of_mem_replicate hb]
      decide
    · exact decimal_isDigit n b hb
  · rw [decimalValue_zeros, decimalValue_decimal]

theorem isNumeral_zeroPadded (hwidth : 0 < width) (hn : 0 ≤ n ∧ n < 10 ^ width) :
    IsNumeral width n (zeroPadded width n) := by
  obtain ⟨n, rfl⟩ := Int.eq_ofNat_of_zero_le hn.1
  have hlength := length_decimal_le hwidth (by exact_mod_cast hn.2)
  have hnumeral := isNumeral_zeroPadded_max width n
  rwa [Nat.max_eq_left hlength] at hnumeral

theorem IsNumeral.nonneg_lt (h : IsNumeral width n ds) : 0 ≤ n ∧ n < 10 ^ width := by
  have hlt := decimalValue_lt h.digits
  rw [h.length_eq] at hlt
  rw [← h.value_eq]
  exact ⟨by omega, by exact_mod_cast hlt⟩

/-- Padding a number to the width of its numeral gives the numeral. -/
theorem IsNumeral.zeroPadded_eq (h : IsNumeral width n ds) (hwidth : 0 < width) :
    zeroPadded width n = ds :=
  (isNumeral_zeroPadded hwidth h.nonneg_lt).eq h

/-- A text of a width whose numerals are all in range is read as the number it denotes. -/
theorem fromChars_eq_some_iff {maximum n : ℕ} (hwidth : 0 < width) (hlength : ds.length = width)
    (hrange : 10 ^ width ≤ maximum + 1) :
    fromChars maximum ds = some (n, []) ↔ IsNumeral width n ds := by
  rw [fromChars_eq_some_nil]
  constructor
  · rintro ⟨-, hdigits, rfl, -⟩
    exact ⟨hlength, hdigits, rfl⟩
  · intro h
    have hvalue : decimalValue ds = n := by exact_mod_cast h.value_eq
    have hlt := decimalValue_lt h.digits
    rw [hlength] at hlt
    refine ⟨?_, h.digits, hvalue, by omega⟩
    rintro rfl
    exact hwidth.ne hlength

/-- The leading digits of a numeral. -/
theorem IsNumeral.take (h : IsNumeral width n ds) {k : ℕ} (hk : k ≤ width) :
    IsNumeral k (n / 10 ^ (width - k)) (ds.take k) := by
  obtain ⟨hlength, hdigits, rfl⟩ := h
  have hdrop : (ds.drop k).length = width - k := by rw [List.length_drop, hlength]
  have hlow : decimalValue (ds.drop k) < 10 ^ (width - k) := by
    rw [← hdrop]
    exact decimalValue_lt fun b hb => hdigits b (List.mem_of_mem_drop hb)
  have hvalue : decimalValue ds = 10 ^ (width - k) * decimalValue (ds.take k) +
      decimalValue (ds.drop k) := by
    conv_lhs => rw [← List.take_append_drop k ds, decimalValue_append, hdrop, Nat.mul_comm]
  constructor
  · rw [List.length_take, hlength, Nat.min_eq_left hk]
  · exact fun b hb => hdigits b (List.mem_of_mem_take hb)
  · rw [hvalue]
    norm_cast
    rw [Nat.mul_add_div (by positivity), Nat.div_eq_of_lt hlow, Nat.add_zero]

end LogGenerator
