import LogGenerator.Foundation.Bytes
import Mathlib.Data.List.TakeWhile

/-!
# Reading numerals

`std::from_chars` in base ten: the value of the longest numeral at the start of a
text and what follows it, or `none` when there is no numeral or it is out of range.
-/

namespace LogGenerator

open Ascii

def minus : UInt8 := 45

/-- For an unsigned type whose values are at most `maximum`. -/
def fromChars (maximum : ℕ) (text : Bytes) : Option (ℕ × Bytes) :=
  let digits := text.takeWhile isDigit
  if digits = [] ∨ maximum < decimalValue digits then none
  else some (decimalValue digits, text.dropWhile isDigit)

/-- For a signed type with values from `-(maximum + 1)` to `maximum`. -/
def fromCharsSigned (maximum : ℕ) (text : Bytes) : Option (ℤ × Bytes) :=
  if text.head? = some minus then
    (fromChars (maximum + 1) text.tail).map fun (value, rest) => (-(value : ℤ), rest)
  else (fromChars maximum text).map fun (value, rest) => ((value : ℤ), rest)

/-- A whole text of digits is read when its value is in range. -/
theorem fromChars_of_digits (maximum : ℕ) {text : Bytes} (hne : text ≠ [])
    (h : ∀ b ∈ text, isDigit b = true) :
    fromChars maximum text =
      if maximum < decimalValue text then none else some (decimalValue text, []) := by
  have htake : text.takeWhile isDigit = text := List.takeWhile_eq_self_iff.mpr h
  have hdrop : text.dropWhile isDigit = [] := List.dropWhile_eq_nil_iff.mpr h
  simp [fromChars, htake, hdrop, hne]

/-- Where nothing is left behind the numeral. -/
theorem fromChars_eq_some_nil {maximum n : ℕ} {text : Bytes} :
    fromChars maximum text = some (n, []) ↔
      text ≠ [] ∧ (∀ b ∈ text, isDigit b = true) ∧ decimalValue text = n ∧ n ≤ maximum := by
  constructor
  · intro h
    have hdigits : ∀ b ∈ text, isDigit b = true := by
      unfold fromChars at h
      dsimp only at h
      split_ifs at h
      exact List.dropWhile_eq_nil_iff.mp (Prod.mk.inj (Option.some.inj h)).2
    have hne : text ≠ [] := by
      rintro rfl
      simp [fromChars] at h
    rw [fromChars_of_digits maximum hne hdigits] at h
    split_ifs at h with hrange
    exact ⟨hne, hdigits, (Prod.mk.inj (Option.some.inj h)).1,
      (Prod.mk.inj (Option.some.inj h)).1 ▸ not_lt.mp hrange⟩
  · rintro ⟨hne, hdigits, rfl, hrange⟩
    rw [fromChars_of_digits maximum hne hdigits, if_neg hrange.not_gt]

theorem fromCharsSigned_eq_some_nil {maximum : ℕ} {z : ℤ} {text : Bytes} :
    fromCharsSigned maximum text = some (z, []) ↔
      (∃ ds, text = minus :: ds ∧ ∃ n : ℕ, fromChars (maximum + 1) ds = some (n, []) ∧ z = -n) ∨
      ∃ n : ℕ, fromChars maximum text = some (n, []) ∧ z = n := by
  unfold fromCharsSigned
  cases text with
  | nil => simp [fromChars]
  | cons b ds =>
    by_cases hsign : b = minus
    · have hnone : ¬ ∃ n : ℕ, fromChars maximum (b :: ds) = some (n, []) ∧ z = n := by
        rintro ⟨n, h, -⟩
        rw [fromChars_eq_some_nil, List.forall_mem_cons, hsign] at h
        exact absurd h.2.1.1 (by decide)
      rw [or_iff_left hnone, if_pos (by rw [hsign]; rfl), Option.map_eq_some_iff]
      constructor
      · rintro ⟨⟨n, rest⟩, h, heq⟩
        obtain ⟨rfl, rfl⟩ := Prod.mk.inj heq
        exact ⟨ds, by rw [hsign], n, h, rfl⟩
      · rintro ⟨_, htext, n, h, rfl⟩
        obtain rfl := (List.cons.inj htext).2
        exact ⟨(n, []), h, rfl⟩
    · have hnone : ¬ ∃ ds', b :: ds = minus :: ds' ∧
          ∃ n : ℕ, fromChars (maximum + 1) ds' = some (n, []) ∧ z = -n := by
        rintro ⟨_, htext, -⟩
        exact hsign (List.cons.inj htext).1
      rw [or_iff_right hnone, if_neg (by simpa using hsign), Option.map_eq_some_iff]
      constructor
      · rintro ⟨⟨n, rest⟩, h, heq⟩
        obtain ⟨rfl, rfl⟩ := Prod.mk.inj heq
        exact ⟨n, h, rfl⟩
      · rintro ⟨n, h, rfl⟩
        exact ⟨(n, []), h, rfl⟩

/-- Leading zeros do not count. -/
theorem decimalValue_zeros (k : ℕ) (digits : Bytes) :
    decimalValue (List.replicate k (digit 0) ++ digits) = decimalValue digits := by
  induction k with
  | zero => rfl
  | succ k ih =>
    rw [List.replicate_succ, List.cons_append, decimalValue, List.foldl_cons]
    exact ih

end LogGenerator
