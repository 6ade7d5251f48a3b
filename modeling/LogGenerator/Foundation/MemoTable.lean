import Mathlib.Data.Finmap

/-!
# Bounded memo tables

A finite map that makes room by dropping an entry of the environment's choice,
and tables all of whose entries stand in a given relation to their keys.
-/

namespace LogGenerator

abbrev MemoTable (κ ν : Type*) := Finmap fun _ : κ => ν

namespace MemoTable

variable {κ ν : Type*} [DecidableEq κ]

def insertBounded (limit : ℕ) (table : MemoTable κ ν) (victim key : κ) (value : ν) :
    Option (MemoTable κ ν) :=
  if limit ≤ table.keys.card ∧ key ∉ table then
    if victim ∈ table then some ((table.erase victim).insert key value) else none
  else some (table.insert key value)

/-- Every entry stands in the relation `R` to its key. -/
def Sound (R : κ → ν → Prop) (table : MemoTable κ ν) : Prop :=
  ∀ key value, table.lookup key = some value → R key value

variable {R : κ → ν → Prop} {table table' : MemoTable κ ν} {victim key : κ} {value : ν}

theorem sound_empty : Sound R (∅ : MemoTable κ ν) := by
  intro key value h
  rw [Finmap.lookup_empty] at h
  cases h

theorem Sound.insert (h : Sound R table) (hvalue : R key value) :
    Sound R (table.insert key value) := by
  intro other found hfound
  by_cases hother : other = key
  · subst hother
    rw [Finmap.lookup_insert] at hfound
    cases hfound
    exact hvalue
  · rw [Finmap.lookup_insert_of_ne table hother] at hfound
    exact h other found hfound

theorem Sound.erase (h : Sound R table) (key : κ) : Sound R (table.erase key) := by
  intro other found hfound
  by_cases hother : other = key
  · subst hother
    rw [Finmap.lookup_erase] at hfound
    cases hfound
  · rw [Finmap.lookup_erase_ne hother] at hfound
    exact h other found hfound

/-- No choice of the entry that is dropped makes a sound table unsound. -/
theorem Sound.insertBounded {limit : ℕ} (h : Sound R table) (hvalue : R key value)
    (hinsert : table.insertBounded limit victim key value = some table') : Sound R table' := by
  unfold MemoTable.insertBounded at hinsert
  split_ifs at hinsert
  · cases hinsert
    exact (h.erase victim).insert hvalue
  · cases hinsert
    exact h.insert hvalue

theorem keys_insert : (table.insert key value).keys = insert key table.keys := by
  ext other
  simp [Finmap.mem_keys, Finmap.mem_insert]

theorem keys_erase : (table.erase key).keys = table.keys.erase key := by
  ext other
  simp [Finmap.mem_keys]

/-- Inserting `key` can turn the set of keys `K` into `K'`. -/
def Inserts (limit : ℕ) (K : Finset κ) (key : κ) (K' : Finset κ) : Prop :=
  if limit ≤ K.card ∧ key ∉ K then ∃ victim ∈ K, K' = insert key (K.erase victim)
  else K' = insert key K

variable {limit : ℕ} {K K' : Finset κ} {other : κ}

theorem inserts_of_insertBounded (h : table.insertBounded limit victim key value = some table') :
    Inserts limit table.keys key table'.keys := by
  unfold Inserts
  unfold MemoTable.insertBounded at h
  simp only [← Finmap.mem_keys] at h
  split_ifs at h ⊢ with hfull hvictim
  · cases h
    exact ⟨victim, hvictim, by rw [keys_insert, keys_erase]⟩
  · cases h
    exact keys_insert

theorem exists_insertBounded_of_inserts (value : ν) (h : Inserts limit table.keys key K') :
    ∃ victim table', table.insertBounded limit victim key value = some table' ∧
      table'.keys = K' := by
  unfold Inserts at h
  unfold MemoTable.insertBounded
  simp only [← Finmap.mem_keys]
  split_ifs at h ⊢ with hfull
  · obtain ⟨victim, hvictim, rfl⟩ := h
    refine ⟨victim, (table.erase victim).insert key value, ?_, ?_⟩
    · rw [if_pos hvictim]
    · rw [keys_insert, keys_erase]
  · exact ⟨key, table.insert key value, rfl, h ▸ keys_insert⟩

theorem Inserts.mem (h : Inserts limit K key K') : key ∈ K' := by
  unfold Inserts at h
  split_ifs at h
  · obtain ⟨victim, -, rfl⟩ := h
    exact Finset.mem_insert_self _ _
  · exact h ▸ Finset.mem_insert_self _ _

theorem Inserts.subset (h : Inserts limit K key K') : K' ⊆ insert key K := by
  unfold Inserts at h
  split_ifs at h
  · obtain ⟨victim, -, rfl⟩ := h
    exact Finset.insert_subset_insert key (K.erase_subset victim)
  · exact h.subset

theorem inserts_erase (hfull : limit ≤ K.card) (hnew : key ∉ K) (hother : other ∈ K) :
    Inserts limit K key (insert key (K.erase other)) := by
  unfold Inserts
  rw [if_pos ⟨hfull, hnew⟩]
  exact ⟨other, hother, rfl⟩

theorem inserts_insert (hroom : K.card < limit) : Inserts limit K key (insert key K) := by
  rw [Inserts, if_neg fun hboth => hroom.not_ge hboth.1]

/-- A key is lost only as the one victim. -/
theorem Inserts.eq_of_lost (h : Inserts limit K key K') (hother : other ∈ K) (hlost : other ∉ K') :
    limit ≤ K.card ∧ key ∉ K ∧ K' = insert key (K.erase other) := by
  unfold Inserts at h
  split_ifs at h with hfull
  · obtain ⟨victim, -, rfl⟩ := h
    have hvictim : other = victim := by
      by_contra hne
      exact hlost (Finset.mem_insert_of_mem (Finset.mem_erase.mpr ⟨hne, hother⟩))
    exact ⟨hfull.1, hfull.2, by rw [hvictim]⟩
  · exact absurd (Finset.mem_insert_of_mem hother) (h ▸ hlost)

theorem exists_inserts (hlimit : 0 < limit) (K : Finset κ) (key : κ) :
    ∃ K', Inserts limit K key K' := by
  by_cases hfull : limit ≤ K.card ∧ key ∉ K
  · obtain ⟨victim, hvictim⟩ := Finset.card_pos.mp (hlimit.trans_le hfull.1)
    exact ⟨_, inserts_erase hfull.1 hfull.2 hvictim⟩
  · exact ⟨insert key K, by rw [Inserts, if_neg hfull]⟩

/-- The table grows by one entry until it is full. -/
theorem Inserts.card (h : Inserts limit K key K') (hnew : key ∉ K) :
    K'.card = if limit ≤ K.card then K.card else K.card + 1 := by
  unfold Inserts at h
  by_cases hfull : limit ≤ K.card
  · rw [if_pos ⟨hfull, hnew⟩] at h
    obtain ⟨victim, hvictim, rfl⟩ := h
    have hkept : key ∉ K.erase victim := fun hmem => hnew (Finset.mem_of_mem_erase hmem)
    rw [if_pos hfull, Finset.card_insert_of_notMem hkept, Finset.card_erase_add_one hvictim]
  · rw [if_neg fun hboth => hfull hboth.1] at h
    rw [if_neg hfull, h, Finset.card_insert_of_notMem hnew]

/-- A table within its limit stays within it. -/
theorem Inserts.card_le (h : Inserts limit K key K') (hcard : K.card ≤ limit) :
    K'.card ≤ limit := by
  by_cases hnew : key ∈ K
  · have hsame : K' = K := by
      rw [Inserts, if_neg fun hboth => hboth.2 hnew] at h
      rw [h, Finset.insert_eq_of_mem hnew]
    rw [hsame]
    exact hcard
  · rw [h.card hnew]
    split_ifs <;> omega

/-- No insertion makes a table smaller. -/
theorem Inserts.le_card (h : Inserts limit K key K') : K.card ≤ K'.card := by
  by_cases hnew : key ∈ K
  · rw [Inserts, if_neg fun hboth => hboth.2 hnew] at h
    rw [h, Finset.insert_eq_of_mem hnew]
  · rw [h.card hnew]
    split_ifs <;> omega

/-- When the table can be full after an insertion without holding `other`. -/
theorem exists_inserts_full (hlimit : 0 < limit) (hnew : key ∉ K) (hother : other ≠ key) :
    (∃ K', Inserts limit K key K' ∧ limit ≤ K'.card ∧ other ∉ K') ↔
      limit ≤ K.card ∨ K.card + 1 = limit ∧ other ∉ K := by
  constructor
  · rintro ⟨K', hinsert, hfull', hlost⟩
    have hcard := hinsert.card hnew
    by_cases hfull : limit ≤ K.card
    · exact .inl hfull
    · rw [if_neg hfull] at hcard
      refine .inr ⟨by omega, fun hmem => ?_⟩
      exact hfull (hinsert.eq_of_lost hmem hlost).1
  · rintro (hfull | ⟨hcard, hlost⟩)
    · obtain ⟨victim, hvictim, hgone⟩ : ∃ victim ∈ K, other ∉ K.erase victim := by
        by_cases hmem : other ∈ K
        · exact ⟨other, hmem, Finset.notMem_erase other K⟩
        · obtain ⟨victim, hvictim⟩ := Finset.card_pos.mp (hlimit.trans_le hfull)
          exact ⟨victim, hvictim, fun h => hmem (Finset.mem_of_mem_erase h)⟩
      have hinsert := inserts_erase hfull hnew hvictim
      refine ⟨_, hinsert, ?_, ?_⟩
      · rw [hinsert.card hnew, if_pos hfull]
        exact hfull
      · simp only [Finset.mem_insert, not_or]
        exact ⟨hother, hgone⟩
    · have hroom : K.card < limit := by omega
      have hinsert : Inserts limit K key (insert key K) := inserts_insert hroom
      refine ⟨_, hinsert, ?_, ?_⟩
      · rw [hinsert.card hnew, if_neg hroom.not_ge, hcard]
      · simp only [Finset.mem_insert, not_or]
        exact ⟨hother, hlost⟩

end MemoTable
end LogGenerator
