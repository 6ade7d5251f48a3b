import Mathlib.Tactic

/-!
# Ordered maps as lists of entries

The entries of an ordered map in the order of their keys, as iterating over the map
gives them.
-/

namespace LogGenerator
namespace SortedEntries

variable {κ ν : Type*} [LT κ] [DecidableLT κ] [DecidableEq κ]

def KeysAscend (entries : List (κ × ν)) : Prop := entries.Pairwise fun a b => a.1 < b.1

/-- Puts `value` under `key`, in place of the value that may be there. -/
def insert (key : κ) (value : ν) : List (κ × ν) → List (κ × ν)
  | [] => [(key, value)]
  | entry :: rest =>
    if key < entry.1 then (key, value) :: entry :: rest
    else if key = entry.1 then (key, value) :: rest
    else entry :: insert key value rest

theorem mem_insert {key : κ} {value : ν} {entries : List (κ × ν)} {entry : κ × ν}
    (h : entry ∈ insert key value entries) : entry = (key, value) ∨ entry ∈ entries := by
  induction entries with
  | nil => exact .inl (List.mem_singleton.mp h)
  | cons first rest ih =>
    unfold insert at h
    split_ifs at h
    · exact List.mem_cons.mp h
    · rcases List.mem_cons.mp h with hnew | hrest
      · exact .inl hnew
      · exact .inr (List.mem_cons_of_mem first hrest)
    · rcases List.mem_cons.mp h with hfirst | hrest
      · exact .inr (hfirst ▸ List.mem_cons_self)
      · exact (ih hrest).imp_right (List.mem_cons_of_mem first)

theorem lookup_insert [BEq κ] [LawfulBEq κ] (key : κ) (value : ν) (entries : List (κ × ν)) (other : κ) :
    (insert key value entries).lookup other =
      if other = key then some value else entries.lookup other := by
  induction entries with
  | nil =>
    rw [insert, List.lookup_cons, List.lookup_nil]
    by_cases h : other = key
    · rw [if_pos h, beq_iff_eq.mpr h]
    · rw [if_neg h, beq_false_of_ne h]
  | cons first rest ih =>
    obtain ⟨k, v⟩ := first
    unfold insert
    by_cases hbefore : key < k
    · rw [if_pos hbefore, List.lookup_cons]
      by_cases h : other = key
      · rw [if_pos h, beq_iff_eq.mpr h]
      · rw [if_neg h, beq_false_of_ne h]
    · rw [if_neg hbefore]
      by_cases hequal : key = k
      · rw [if_pos hequal, List.lookup_cons, List.lookup_cons, hequal]
        by_cases h : other = k
        · rw [if_pos h, beq_iff_eq.mpr h]
        · rw [if_neg h, beq_false_of_ne h]
      · rw [if_neg hequal, List.lookup_cons, List.lookup_cons, ih]
        by_cases h : other = k
        · have hne : other ≠ key := fun heq => hequal (heq.symm.trans h)
          rw [if_neg hne, if_neg hne]
        · rw [beq_false_of_ne h]

/-- A key behind all others is appended. -/
theorem insert_of_forall_lt [Std.Asymm (α := κ) (· < ·)] {key : κ} (value : ν)
    {entries : List (κ × ν)} (h : ∀ entry ∈ entries, entry.1 < key) :
    insert key value entries = entries ++ [(key, value)] := by
  induction entries with
  | nil => rfl
  | cons first rest ih =>
    obtain ⟨hfirst, hrest⟩ := List.forall_mem_cons.mp h
    have hne : key ≠ first.1 := by
      intro heq
      rw [heq] at hfirst
      exact Std.Asymm.asymm _ _ hfirst hfirst
    rw [insert, if_neg (Std.Asymm.asymm _ _ hfirst), if_neg hne, ih hrest]
    rfl

/-- Inserting ascending entries one after the other appends them. -/
theorem foldl_insert [Std.Asymm (α := κ) (· < ·)] {entries : List (κ × ν)} :
    ∀ {acc : List (κ × ν)}, KeysAscend (acc ++ entries) →
      entries.foldl (fun acc entry => insert entry.1 entry.2 acc) acc = acc ++ entries := by
  induction entries with
  | nil =>
    intro acc _
    rw [List.foldl_nil, List.append_nil]
  | cons first rest ih =>
    intro acc h
    have hbefore : ∀ entry ∈ acc, entry.1 < first.1 := fun entry hmem =>
      (List.pairwise_append.mp h).2.2 entry hmem first List.mem_cons_self
    have hshift : acc ++ first :: rest = (acc ++ [first]) ++ rest := List.append_cons acc first rest
    rw [hshift] at h
    rw [List.foldl_cons, insert_of_forall_lt first.2 hbefore, hshift]
    exact ih h

theorem keysAscend_insert [IsTrans κ (· < ·)] [Std.Trichotomous (α := κ) (· < ·)] (key : κ)
    (value : ν) {entries : List (κ × ν)} (h : KeysAscend entries) :
    KeysAscend (insert key value entries) := by
  induction entries with
  | nil => exact List.pairwise_singleton _ _
  | cons first rest ih =>
    obtain ⟨hfirst, hrest⟩ := List.pairwise_cons.mp h
    unfold insert
    split_ifs with hbefore hequal
    · refine List.pairwise_cons.mpr ⟨?_, h⟩
      intro entry hmem
      rcases List.mem_cons.mp hmem with rfl | hmem
      · exact hbefore
      · exact IsTrans.trans _ _ _ hbefore (hfirst entry hmem)
    · subst hequal
      exact List.pairwise_cons.mpr ⟨hfirst, hrest⟩
    · refine List.pairwise_cons.mpr ⟨?_, ih hrest⟩
      intro entry hmem
      rcases mem_insert hmem with rfl | hmem
      · by_contra hafter
        exact hequal (Std.Trichotomous.trichotomous key first.1 hbefore hafter)
      · exact hfirst entry hmem

end SortedEntries
end LogGenerator
