import Mathlib.Data.BitVec
import Mathlib.Tactic

/-!
# Xor-linear maps on words

A map that respects xor is injective when Gaussian elimination finds its columns
independent. The elimination is a program, so a concrete map is checked by
running it on the images of the single bits.
-/

namespace LogGenerator
namespace XorLinear

variable {w : ℕ}

def scale (taken : Bool) (v : BitVec w) : BitVec w := if taken then v else 0#w

/-- The xor of the words that come with `true`. -/
def combine : List (Bool × BitVec w) → BitVec w
  | [] => 0#w
  | (taken, v) :: rest => scale taken v ^^^ combine rest

/-- The lowest bit of a word that is not zero. -/
def pivot (v : BitVec w) : Option ℕ := (List.range w).find? fun i => v.getLsbD i

/-- `u` without bit `p`, with the help of `v`. -/
def clear (p : ℕ) (v u : BitVec w) : BitVec w := u ^^^ scale (u.getLsbD p) v

/-- Gaussian elimination on that many words. -/
def independent : ℕ → List (BitVec w) → Bool
  | 0, _ => true
  | _ + 1, [] => true
  | n + 1, v :: vs =>
    match pivot v with
    | none => false
    | some p => independent n (vs.map (clear p v))

@[simp] theorem scale_true (v : BitVec w) : scale true v = v := rfl

@[simp] theorem scale_false (v : BitVec w) : scale false v = 0#w := rfl

theorem scale_xor (taken : Bool) (u v : BitVec w) :
    scale taken (u ^^^ v) = scale taken u ^^^ scale taken v := by
  cases taken <;> simp

theorem scale_scale (a b : Bool) (v : BitVec w) : scale a (scale b v) = scale (a && b) v := by
  cases a <;> simp

theorem xor_scale (a b : Bool) (v : BitVec w) : scale (a ^^ b) v = scale a v ^^^ scale b v := by
  cases a <;> cases b <;> simp

theorem pivot_spec {v : BitVec w} {p : ℕ} (h : pivot v = some p) : v.getLsbD p = true :=
  List.find?_some h

theorem getLsbD_clear {v : BitVec w} {p : ℕ} (hv : v.getLsbD p = true) (u : BitVec w) :
    (clear p v u).getLsbD p = false := by
  rw [clear, BitVec.getLsbD_xor]
  cases hu : u.getLsbD p <;> simp [hv]

theorem eq_clear_xor (p : ℕ) (v u : BitVec w) : u = clear p v u ^^^ scale (u.getLsbD p) v := by
  rw [clear, BitVec.xor_assoc, BitVec.xor_self, BitVec.xor_zero]

/-- A combination of words without bit `p` is without it. -/
theorem getLsbD_combine {p : ℕ} {ps : List (Bool × BitVec w)}
    (h : ∀ pair ∈ ps, pair.2.getLsbD p = false) : (combine ps).getLsbD p = false := by
  induction ps with
  | nil => simp [combine]
  | cons pair ps ih =>
    rw [List.forall_mem_cons] at h
    obtain ⟨taken, v⟩ := pair
    rw [combine, BitVec.getLsbD_xor, ih h.2]
    cases taken
    · simp
    · simpa using h.1

theorem combine_eq_zero {ps : List (Bool × BitVec w)} (h : ∀ pair ∈ ps, pair.1 = false) :
    combine ps = 0#w := by
  induction ps with
  | nil => rfl
  | cons pair ps ih =>
    rw [List.forall_mem_cons] at h
    obtain ⟨taken, v⟩ := pair
    obtain rfl : taken = false := h.1
    rw [combine, ih h.2, scale_false, BitVec.xor_zero]

/-- Clearing changes a combination by `v` or not at all. -/
theorem combine_clear (p : ℕ) (v : BitVec w) (ps : List (Bool × BitVec w)) :
    ∃ taken : Bool, combine ps =
      scale taken v ^^^ combine (ps.map fun pair => (pair.1, clear p v pair.2)) := by
  induction ps with
  | nil => exact ⟨false, by simp [combine]⟩
  | cons pair ps ih =>
    obtain ⟨taken, hrest⟩ := ih
    obtain ⟨used, u⟩ := pair
    have hu : scale used u = scale used (clear p v u) ^^^ scale (used && u.getLsbD p) v := by
      rw [← scale_scale, ← scale_xor, ← eq_clear_xor]
    refine ⟨(used && u.getLsbD p) ^^ taken, ?_⟩
    rw [List.map_cons, combine, combine, hrest, hu, xor_scale]
    dsimp only
    ac_rfl

/-- The elimination is sound: only the empty combination of independent words is zero. -/
theorem forall_false_of_independent {n : ℕ} {ps : List (Bool × BitVec w)}
    (hn : ps.length ≤ n) (h : independent n (ps.map Prod.snd) = true) (hzero : combine ps = 0#w) :
    ∀ pair ∈ ps, pair.1 = false := by
  induction n generalizing ps with
  | zero =>
    obtain rfl := List.length_eq_zero_iff.mp (Nat.le_zero.mp hn)
    exact List.forall_mem_nil _
  | succ n ih =>
    cases ps with
    | nil => exact List.forall_mem_nil _
    | cons pair ps =>
      obtain ⟨taken, v⟩ := pair
      rw [List.map_cons, independent] at h
      split at h
      · cases h
      next p hp =>
      have hv := pivot_spec hp
      have hcleared : (combine (ps.map fun pair => (pair.1, clear p v pair.2))).getLsbD p = false := by
        apply getLsbD_combine
        intro pair hpair
        obtain ⟨old, -, rfl⟩ := List.mem_map.mp hpair
        exact getLsbD_clear hv old.2
      have hbit := congrArg (fun u => BitVec.getLsbD u p) hzero
      -- bit `p` stands in `v` alone, so `v` is taken an even number of times
      obtain ⟨used, hrest⟩ := combine_clear p v ps
      rw [combine, hrest, ← BitVec.xor_assoc, ← xor_scale] at hzero
      have heven : (taken ^^ used) = false := by
        have hparity := congrArg (fun u => BitVec.getLsbD u p) hzero
        simp only [BitVec.getLsbD_xor, hcleared] at hparity
        cases hodd : taken ^^ used
        · rfl
        · rw [hodd, scale_true, hv] at hparity
          simp at hparity
      rw [heven, scale_false, BitVec.zero_xor] at hzero
      have hps : ∀ pair ∈ ps, pair.1 = false := by
        have hmap : (ps.map fun pair => (pair.1, clear p v pair.2)).map Prod.snd =
            (ps.map Prod.snd).map (clear p v) := by
          rw [List.map_map, List.map_map]
          rfl
        rw [← hmap] at h
        exact List.forall_mem_map.mp (ih (by simpa using hn) h hzero)
      rw [List.forall_mem_cons]
      refine ⟨?_, hps⟩
      rw [combine, combine_eq_zero hps, BitVec.xor_zero] at hbit
      cases taken
      · rfl
      · rw [scale_true, hv] at hbit
        simp at hbit

/-- The images of the lowest `n` bits. -/
def columns (f : BitVec w → BitVec w) : ℕ → List (BitVec w)
  | 0 => []
  | n + 1 => f (BitVec.twoPow w n) :: columns f n

/-- The same, each with the bit of `x`. -/
def bitPairs (f : BitVec w → BitVec w) (x : BitVec w) : ℕ → List (Bool × BitVec w)
  | 0 => []
  | n + 1 => (x.getLsbD n, f (BitVec.twoPow w n)) :: bitPairs f x n

theorem map_snd_bitPairs (f : BitVec w → BitVec w) (x : BitVec w) (n : ℕ) :
    (bitPairs f x n).map Prod.snd = columns f n := by
  induction n with
  | zero => rfl
  | succ n ih => rw [bitPairs, columns, List.map_cons, ih]

theorem length_bitPairs (f : BitVec w → BitVec w) (x : BitVec w) (n : ℕ) :
    (bitPairs f x n).length = n := by
  induction n with
  | zero => rfl
  | succ n ih => rw [bitPairs, List.length_cons, ih]

theorem mem_bitPairs {f : BitVec w → BitVec w} {x : BitVec w} {i n : ℕ} (h : i < n) :
    (x.getLsbD i, f (BitVec.twoPow w i)) ∈ bitPairs f x n := by
  induction n with
  | zero => exact absurd h (Nat.not_lt_zero i)
  | succ n ih =>
    rw [bitPairs, List.mem_cons]
    rcases Nat.lt_succ_iff_lt_or_eq.mp h with hlt | rfl
    · exact .inr (ih hlt)
    · exact .inl rfl

/-- The lowest `n` bits of a word put together. -/
theorem getLsbD_combine_bitPairs (x : BitVec w) (i n : ℕ) :
    (combine (bitPairs id x n)).getLsbD i = (decide (i < n) && x.getLsbD i) := by
  induction n with
  | zero => simp [bitPairs, combine]
  | succ n ih =>
    rw [bitPairs, combine, BitVec.getLsbD_xor, ih]
    have hone : (scale (x.getLsbD n) (BitVec.twoPow w n)).getLsbD i =
        (decide (i = n) && x.getLsbD i) := by
      by_cases heq : i = n
      · subst heq
        cases hx : x.getLsbD i
        · simp
        · simp [BitVec.lt_of_getLsbD hx]
      · cases x.getLsbD n <;> simp [BitVec.getLsbD_twoPow, heq, Ne.symm heq]
    rw [id, hone]
    rcases Nat.lt_trichotomy i n with h | h | h
    · simp [h, h.ne, Nat.lt_succ_of_lt h]
    · simp [h]
    · simp [h.ne', h.not_gt, show ¬ i < n + 1 by omega]

section

variable {f : BitVec w → BitVec w} (hf : ∀ u v, f (u ^^^ v) = f u ^^^ f v)

include hf

theorem map_zero : f 0#w = 0#w := by
  have h := hf 0#w 0#w
  rw [BitVec.xor_self, BitVec.xor_self] at h
  exact h

theorem map_combine (x : BitVec w) (n : ℕ) :
    f (combine (bitPairs id x n)) = combine (bitPairs f x n) := by
  induction n with
  | zero => exact map_zero hf
  | succ n ih =>
    rw [bitPairs, bitPairs, combine, combine, hf, ih]
    cases x.getLsbD n
    · rw [scale_false, scale_false, map_zero hf]
    · rfl

/-- A xor-linear map whose columns the elimination finds independent sends only zero to zero. -/
theorem eq_zero_of_independent (h : independent w (columns f w) = true) {x : BitVec w}
    (hx : f x = 0#w) : x = 0#w := by
  have hbits : combine (bitPairs id x w) = x := by
    apply BitVec.eq_of_getLsbD_eq
    intro i hi
    rw [getLsbD_combine_bitPairs, decide_eq_true hi, Bool.true_and]
  rw [← hbits, map_combine hf] at hx
  rw [← map_snd_bitPairs f x] at h
  have hfalse := forall_false_of_independent (length_bitPairs f x w).le h hx
  apply BitVec.eq_of_getLsbD_eq
  intro i hi
  have hbit : x.getLsbD i = false := hfalse _ (mem_bitPairs hi)
  rw [hbit, BitVec.getLsbD_zero]

theorem injective_of_independent (h : independent w (columns f w) = true) :
    Function.Injective f := by
  intro u v huv
  have hzero : f (u ^^^ v) = 0#w := by rw [hf, huv, BitVec.xor_self]
  have hxor := eq_zero_of_independent hf h hzero
  calc u = (u ^^^ v) ^^^ v := by rw [BitVec.xor_assoc, BitVec.xor_self, BitVec.xor_zero]
    _ = v := by rw [hxor, BitVec.zero_xor]

end

end XorLinear
end LogGenerator
