import Mathlib.Data.Set.Card
import Mathlib.Tactic

/-!
# Looking for a name that is not taken

Names are enumerated without repetition and finitely many of them are taken. The
number of taken names still ahead bounds a search that tries one name after the
other.
-/

namespace LogGenerator

variable {α : Type*}

/-- The indices from `index` on whose names are taken. -/
def takenFrom (name : ℕ → α) (taken : List α) (index : ℕ) : Set ℕ :=
  {i | index ≤ i ∧ name i ∈ taken}

theorem takenFrom_finite {name : ℕ → α} (hname : Function.Injective name) (taken : List α)
    (index : ℕ) : (takenFrom name taken index).Finite := by
  have himage : (name '' takenFrom name taken index).Finite := by
    apply (List.finite_toSet taken).subset
    rintro _ ⟨i, hi, rfl⟩
    exact hi.2
  exact himage.of_finite_image hname.injOn

/-- The search has passed a taken name. -/
theorem ncard_takenFrom_succ {name : ℕ → α} (hname : Function.Injective name) {taken : List α}
    {index : ℕ} (htaken : name index ∈ taken) :
    (takenFrom name taken (index + 1)).ncard + 1 = (takenFrom name taken index).ncard := by
  have hsplit : takenFrom name taken index = insert index (takenFrom name taken (index + 1)) := by
    ext i
    simp only [takenFrom, Set.mem_ofPred_eq, Set.mem_insert_iff]
    constructor
    · intro hi
      by_cases heq : i = index
      · exact .inl heq
      · exact .inr ⟨by omega, hi.2⟩
    · rintro (rfl | hi)
      · exact ⟨le_rfl, htaken⟩
      · exact ⟨by omega, hi.2⟩
  have hnotMem : index ∉ takenFrom name taken (index + 1) := by
    intro hmem
    have hle : index + 1 ≤ index := hmem.1
    omega
  rw [hsplit, Set.ncard_insert_of_notMem hnotMem (takenFrom_finite hname taken _)]

theorem ncard_takenFrom_le [DecidableEq α] {name : ℕ → α} (hname : Function.Injective name)
    (taken : List α) (index : ℕ) : (takenFrom name taken index).ncard ≤ taken.length := by
  calc (takenFrom name taken index).ncard
      = (name '' takenFrom name taken index).ncard := (Set.ncard_image_of_injective _ hname).symm
    _ ≤ (taken.toFinset : Set α).ncard := by
        apply Set.ncard_le_ncard
        · rintro _ ⟨i, hi, rfl⟩
          simpa using hi.2
        · exact taken.toFinset.finite_toSet
    _ = taken.toFinset.card := Set.ncard_coe_finset _
    _ ≤ taken.length := taken.toFinset_card_le

end LogGenerator
