import Mathlib.Tactic

/-!
# 64-bit arithmetic

Signed operations whose overflow is undefined give `none` there; conversions between
the signed and the unsigned type wrap, and so do unsigned counters.
-/

namespace LogGenerator

def Fits (x : ℤ) : Prop := -9223372036854775808 ≤ x ∧ x ≤ 9223372036854775807

instance (x : ℤ) : Decidable (Fits x) := inferInstanceAs (Decidable (_ ∧ _))

/-- The exact value of an expression of a signed 64-bit type; `none` when it overflows. -/
def checked (x : ℤ) : Option ℤ := if Fits x then some x else none

theorem checked_eq_some_iff {x y : ℤ} : checked x = some y ↔ Fits x ∧ x = y := by
  unfold checked
  split_ifs with h
  · simp [h]
  · simp [h]

theorem checked_of_fits {x : ℤ} (h : Fits x) : checked x = some x :=
  checked_eq_some_iff.mpr ⟨h, rfl⟩

theorem checked_eq_none_iff {x : ℤ} : checked x = none ↔ ¬ Fits x := by
  simp [checked]

theorem Fits.between {x y z : ℤ} (hx : Fits x) (hz : Fits z) (hxy : x ≤ y) (hyz : y ≤ z) :
    Fits y :=
  ⟨hx.1.trans hxy, hyz.trans hz.2⟩

/-- An unsigned 64-bit value read as a signed one. -/
def toSigned (n : ℕ) : ℤ := (n : ℤ).bmod (2 ^ 64)

theorem toSigned_of_lt {n : ℕ} (h : n < 2 ^ 63) : toSigned n = n := by
  unfold toSigned
  exact Int.bmod_eq_of_le (by omega) (by omega)

/-- `fetch_add` on an unsigned 64-bit counter. -/
def fetchAdd (counter n : ℕ) : ℕ := (counter + n) % 2 ^ 64

theorem fetchAdd_of_lt {counter n : ℕ} (h : counter + n < 2 ^ 64) :
    fetchAdd counter n = counter + n := Nat.mod_eq_of_lt h

/-- Additions to a counter add up, whatever the times it wraps. -/
theorem fetchAdd_mod (total n : ℕ) : fetchAdd (total % 2 ^ 64) n = (total + n) % 2 ^ 64 :=
  Nat.mod_add_mod total (2 ^ 64) n

end LogGenerator
