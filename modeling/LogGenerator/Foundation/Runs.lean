import Mathlib.Tactic

/-!
# Runs of a list

Where a longest run of elements with a property ends.
-/

namespace LogGenerator
namespace Runs

variable {α : Type*} {p : α → Bool} {run rest : List α}

/-- The first element, if any, has not the property. -/
def Stops (p : α → Bool) (rest : List α) : Prop := rest.head?.any p = false

instance : Decidable (Stops p rest) := inferInstanceAs (Decidable (_ = false))

@[simp] theorem stops_nil : Stops p [] := rfl

@[simp] theorem stops_cons {a : α} : Stops p (a :: rest) ↔ p a = false := Iff.rfl

theorem takeWhile_append (hrun : ∀ a ∈ run, p a = true) (hrest : Stops p rest) :
    (run ++ rest).takeWhile p = run := by
  rw [List.takeWhile_append_of_pos hrun]
  cases rest with
  | nil => rw [List.takeWhile_nil, List.append_nil]
  | cons a rest => rw [List.takeWhile_cons_of_neg (by simpa using hrest), List.append_nil]

theorem dropWhile_append (hrun : ∀ a ∈ run, p a = true) (hrest : Stops p rest) :
    (run ++ rest).dropWhile p = rest := by
  rw [List.dropWhile_append_of_pos hrun]
  cases rest with
  | nil => rfl
  | cons a rest => rw [List.dropWhile_cons_of_neg (by simpa using hrest)]

/-- A list is a run and what stops it. -/
theorem exists_run (p : α → Bool) (l : List α) :
    ∃ run rest, l = run ++ rest ∧ (∀ a ∈ run, p a = true) ∧ Stops p rest := by
  induction l with
  | nil => exact ⟨[], [], rfl, nofun, rfl⟩
  | cons a l ih =>
    cases ha : p a with
    | false => exact ⟨[], a :: l, rfl, nofun, ha⟩
    | true =>
      obtain ⟨run, rest, rfl, hrun, hrest⟩ := ih
      exact ⟨a :: run, rest, rfl, List.forall_mem_cons.mpr ⟨ha, hrun⟩, hrest⟩

/-- The same where only the first `n` elements are looked at. -/
theorem takeWhile_take_append {n : ℕ} (hrun : ∀ a ∈ run, p a = true) (hlength : run.length ≤ n)
    (hrest : Stops p rest) : ((run ++ rest).take n).takeWhile p = run := by
  rw [List.take_append, List.take_of_length_le hlength]
  refine takeWhile_append hrun ?_
  cases rest with
  | nil => simp
  | cons a rest =>
    cases n - run.length with
    | zero => simp
    | succ n => simpa using hrest

end Runs
end LogGenerator
