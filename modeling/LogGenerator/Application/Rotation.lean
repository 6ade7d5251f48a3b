import LogGenerator.Application.RoundRobin
import LogGenerator.Foundation.Machine
import Mathlib.Data.Int.CardIntervalMod

/-!
# The rotation that the workers share

Any number of workers select samples through one `RoundRobinCursor`. A call of
`next` touches the shared counter once, so a call is a step, and a run is any
interleaving of calls. Next to the cursors the state keeps what has happened: the
slots of each worker's blocks and the indices that its calls have returned.
-/

namespace LogGenerator
namespace Application

structure Rotation (W : ℕ) where
  shared : RoundRobinCursor
  workers : Fin W → WorkerRoundRobinCursor
  /-- The slots reserved so far, by all workers. -/
  reserved : ℕ := 0
  granted : Fin W → List ℕ := fun _ => []
  returned : Fin W → List ℕ := fun _ => []

namespace Rotation

variable {W : ℕ}

/-- The slots of the block that the next call of worker `i` reserves. -/
def block (s : Rotation W) (i : Fin W) : List ℕ :=
  if (s.workers i).remaining = 0 then
    (List.range (s.workers i).reservationSize).map (s.reserved + ·)
  else []

/-- Worker `i` calls `next`. -/
def select (s : Rotation W) (i : Fin W) : Rotation W :=
  let (index, worker, shared) := (s.workers i).next s.shared
  { shared := shared
    workers := Function.update s.workers i worker
    reserved := s.reserved + (s.block i).length
    granted := Function.update s.granted i (s.granted i ++ s.block i)
    returned := Function.update s.returned i (s.returned i ++ [index]) }

/-- Workers with blocks of the given sizes over the samples of `shared`. -/
def machine (shared : RoundRobinCursor) (size : Fin W → ℕ) : Machine (Rotation W) (Fin W) where
  initial := { shared := shared, workers := fun i => { reservationSize := size i } }
  step s i := some (s.select i)

/-- The total of reserved slots stays below the range of the counter. -/
def Fits (s : Rotation W) (i : Fin W) : Prop := (s.select i).reserved < sizeModulus

end Rotation

/-- The indices that the rest of the block is going to give. -/
def WorkerRoundRobinCursor.held (w : WorkerRoundRobinCursor) (n : ℕ) : List ℕ :=
  (List.range w.remaining).map fun j => (w.current + j) % n

/-- The slots of a worker's blocks give what it has returned and then what it holds. -/
structure WorkerRoundRobinCursor.Accounts (w : WorkerRoundRobinCursor) (n size : ℕ)
    (granted returned : List ℕ) : Prop where
  reservationSize : w.reservationSize = size
  remaining : w.remaining < sizeModulus
  current : w.remaining ≠ 0 → w.current < n
  slots : returned ++ w.held n = granted.map (· % n)

theorem accounts_initial (n size : ℕ) :
    WorkerRoundRobinCursor.Accounts { reservationSize := size } n size [] [] :=
  ⟨rfl, Nat.two_pow_pos 64, fun h => absurd rfl h, rfl⟩

/-- Reserving a block appends its slots to those granted. -/
theorem WorkerRoundRobinCursor.Accounts.refill {w : WorkerRoundRobinCursor} {n size reserved : ℕ}
    {granted returned : List ℕ} {shared : RoundRobinCursor} (h : w.Accounts n size granted returned)
    (hitems : shared.itemCount = n) (hcounter : n ≠ 1 → shared.next = reserved)
    (hempty : w.remaining = 0) (hsize : size < sizeModulus) :
    (w.refill shared).1.Accounts n size
      (granted ++ (List.range size).map (reserved + ·)) returned := by
  have hpos : 0 < n := hitems ▸ shared.itemCount_pos
  have hstart : (shared.reserve size).1 = reserved % n := by
    unfold RoundRobinCursor.reserve
    split_ifs with hone
    · rw [← hitems, hone, Nat.mod_one]
    · dsimp only
      rw [hitems, hcounter (hitems ▸ hone)]
  have hslots := h.slots
  simp only [held, hempty, List.range_zero, List.map_nil, List.append_nil] at hslots
  rw [WorkerRoundRobinCursor.refill, if_pos hempty]
  simp only [h.reservationSize]
  refine ⟨rfl, hsize, fun _ => hstart ▸ Nat.mod_lt reserved hpos, ?_⟩
  rw [held, hstart, hslots, List.map_append, List.map_map]
  congr 1
  apply List.map_congr_left
  intro j _
  exact Nat.mod_add_mod reserved n j

/-- A call hands out the first slot held. -/
theorem WorkerRoundRobinCursor.Accounts.next {w : WorkerRoundRobinCursor} {n size : ℕ}
    {granted returned : List ℕ} {shared : RoundRobinCursor}
    (h : (w.refill shared).1.Accounts n size granted returned)
    (hitems : (w.refill shared).2.itemCount = n) (hremaining : (w.refill shared).1.remaining ≠ 0) :
    (w.next shared).2.1.Accounts n size granted (returned ++ [(w.next shared).1]) ∧
      (w.next shared).1 < n := by
  unfold WorkerRoundRobinCursor.next
  generalize w.refill shared = filled at h hitems hremaining
  obtain ⟨w, shared⟩ := filled
  dsimp only at h hitems hremaining ⊢
  obtain ⟨rest, hrest⟩ : ∃ k, w.remaining = k + 1 := ⟨w.remaining - 1, by omega⟩
  have hsmall := h.remaining
  have hcurrent := h.current hremaining
  have hless : (w.remaining + (sizeModulus - 1)) % sizeModulus = rest := by
    have hshift : w.remaining + (sizeModulus - 1) = rest + sizeModulus := by
      have hpos : 0 < sizeModulus := by decide
      omega
    rw [hshift, Nat.add_mod_right, Nat.mod_eq_of_lt (by omega)]
  have hfollowing : (if w.current + 1 = n then 0 else w.current + 1) = (w.current + 1) % n := by
    split_ifs with hlast
    · rw [hlast, Nat.mod_self]
    · exact (Nat.mod_eq_of_lt (by omega)).symm
  refine ⟨⟨h.reservationSize, ?_, ?_, ?_⟩, hcurrent⟩
  · dsimp only
    omega
  · intro _
    rw [hitems, hfollowing]
    exact Nat.mod_lt _ (by omega)
  · have hslots := h.slots
    rw [held, hrest, List.range_succ_eq_map, List.map_cons, List.map_map, Nat.add_zero,
      Nat.mod_eq_of_lt hcurrent] at hslots
    rw [← hslots, held, List.append_assoc, List.singleton_append]
    dsimp only
    rw [hless, hitems, hfollowing]
    have hshift : (List.range rest).map (fun j => ((w.current + 1) % n + j) % n) =
        (List.range rest).map ((fun j => (w.current + j) % n) ∘ Nat.succ) := by
      apply List.map_congr_left
      intro j _
      rw [Nat.mod_add_mod, Function.comp_apply, Nat.succ_eq_add_one, Nat.add_assoc, Nat.add_comm 1]
    rw [hshift]

namespace Rotation

variable {W : ℕ} {shared : RoundRobinCursor} {size : Fin W → ℕ}

/-- Every slot reserved is granted to one worker, which accounts for it. -/
structure Fair (n : ℕ) (size : Fin W → ℕ) (s : Rotation W) : Prop where
  itemCount : s.shared.itemCount = n
  counter : n ≠ 1 → s.shared.next = s.reserved % sizeModulus
  granted : ∑ i, (s.granted i : Multiset ℕ) = Multiset.range s.reserved
  ascending : ∀ i, (s.granted i).Pairwise (· < ·)
  accounts : ∀ i, (s.workers i).Accounts n (size i) (s.granted i) (s.returned i)
  returned : ∀ i, ∀ index ∈ s.returned i, index < n

variable {n : ℕ} {s : Rotation W}

theorem fair_initial (hshared : shared.next = 0) :
    Fair shared.itemCount size (machine shared size).initial := by
  refine ⟨rfl, ?_, ?_, fun _ => .nil, fun i => accounts_initial _ _, ?_⟩
  · intro _
    rw [machine, hshared]
    rfl
  · simp [machine]
  · intro i index hindex
    cases hindex

/-- What the call has before it hands out a slot: a block, and the counter behind it. -/
theorem Fair.refill (h : Fair n size s) (i : Fin W) (hsize : 0 < size i) (hfits : s.Fits i) :
    ((s.workers i).refill s.shared).1.Accounts n (size i) (s.granted i ++ s.block i)
        (s.returned i) ∧
      ((s.workers i).refill s.shared).1.remaining ≠ 0 ∧
      ((s.workers i).refill s.shared).2.itemCount = n ∧
      (n ≠ 1 → ((s.workers i).refill s.shared).2.next =
        (s.reserved + (s.block i).length) % sizeModulus) := by
  have hworker := h.accounts i
  by_cases hempty : (s.workers i).remaining = 0
  · have hblock : s.block i = (List.range (size i)).map (s.reserved + ·) := by
      rw [block, if_pos hempty, hworker.reservationSize]
    have htotal : s.reserved + size i < sizeModulus := by
      have hfits' : s.reserved + (s.block i).length < sizeModulus := hfits
      rwa [hblock, List.length_map, List.length_range] at hfits'
    have hcounter : n ≠ 1 → s.shared.next = s.reserved := by
      intro hn
      rw [h.counter hn, Nat.mod_eq_of_lt (by omega)]
    have hfilled := hworker.refill h.itemCount hcounter hempty (by omega)
    rw [hblock]
    refine ⟨hfilled, ?_, ?_, ?_⟩
    · rw [WorkerRoundRobinCursor.refill, if_pos hempty]
      dsimp only
      rw [hworker.reservationSize]
      omega
    · rw [WorkerRoundRobinCursor.refill, if_pos hempty]
      dsimp only
      rw [reserve_itemCount, h.itemCount]
    · intro hn
      have hone : s.shared.itemCount ≠ 1 := by rwa [h.itemCount]
      rw [WorkerRoundRobinCursor.refill, if_pos hempty]
      dsimp only
      rw [RoundRobinCursor.reserve, if_neg hone, hworker.reservationSize, List.length_map,
        List.length_range, hcounter hn]
  · have hblock : s.block i = [] := by rw [block, if_neg hempty]
    rw [hblock, WorkerRoundRobinCursor.refill, if_neg hempty, List.append_nil, List.length_nil,
      Nat.add_zero]
    exact ⟨hworker, hempty, h.itemCount, h.counter⟩

theorem range_add_block (s : Rotation W) (i : Fin W) :
    Multiset.range s.reserved + (s.block i : Multiset ℕ) =
      Multiset.range (s.reserved + (s.block i).length) := by
  unfold block
  split_ifs
  · rw [List.length_map, List.length_range, Multiset.range_add]
    rfl
  · simp

theorem Fair.granted_lt (h : Fair n size s) (i : Fin W) : ∀ slot ∈ s.granted i, slot < s.reserved := by
  intro slot hslot
  have hle : (s.granted i : Multiset ℕ) ≤ Multiset.range s.reserved :=
    h.granted ▸ Finset.single_le_sum (f := fun i => (s.granted i : Multiset ℕ))
      (fun _ _ => Multiset.zero_le _) (Finset.mem_univ i)
  exact Multiset.mem_range.mp (Multiset.mem_of_le hle (Multiset.mem_coe.mpr hslot))

theorem Fair.ascending_append (h : Fair n size s) (i : Fin W) :
    (s.granted i ++ s.block i).Pairwise (· < ·) := by
  refine List.pairwise_append.mpr ⟨h.ascending i, ?_, ?_⟩
  · unfold block
    split_ifs
    · exact List.pairwise_map.mpr (List.pairwise_lt_range.imp fun hlt => by omega)
    · exact .nil
  · intro old hold new hnew
    have hlow : s.reserved ≤ new := by
      unfold block at hnew
      split_ifs at hnew
      · obtain ⟨j, -, rfl⟩ := List.mem_map.mp hnew
        exact Nat.le_add_right _ _
      · cases hnew
    exact lt_of_lt_of_le (h.granted_lt i old hold) hlow

/-- One call keeps the account, whichever worker makes it. -/
theorem Fair.select (h : Fair n size s) (i : Fin W) (hsize : 0 < size i) (hfits : s.Fits i) :
    Fair n size (s.select i) := by
  obtain ⟨hfilled, hremaining, hitems, hcounter⟩ := h.refill i hsize hfits
  obtain ⟨hnext, hindex⟩ := hfilled.next hitems hremaining
  refine ⟨hitems, hcounter, ?_, ?_, ?_, ?_⟩
  · have hsum := sum_update_add s.granted (fun slots => (slots : Multiset ℕ)) i
      (s.granted i ++ s.block i)
    rw [h.granted, ← Multiset.coe_add, ← add_assoc, add_right_comm, range_add_block] at hsum
    exact add_right_cancel hsum
  · intro j
    by_cases hj : j = i
    · subst hj
      simpa [Rotation.select] using h.ascending_append j
    · simpa [Rotation.select, Function.update_of_ne hj] using h.ascending j
  · intro j
    by_cases hj : j = i
    · subst hj
      simpa [Rotation.select] using hnext
    · simpa [Rotation.select, Function.update_of_ne hj] using h.accounts j
  · intro j index hmem
    by_cases hj : j = i
    · subst hj
      simp only [Rotation.select, Function.update_self, List.mem_append, List.mem_singleton] at hmem
      rcases hmem with hold | rfl
      · exact h.returned j index hold
      · exact hindex
    · rw [Rotation.select] at hmem
      simp only [Function.update_of_ne hj] at hmem
      exact h.returned j index hmem

theorem fair_of_steps (hshared : shared.next = 0) (hsize : ∀ i, 0 < size i)
    (h : (machine shared size).Steps Fits (machine shared size).initial s) :
    Fair shared.itemCount size s := by
  refine h.invariant (fair_initial hshared) ?_
  intro s i t hs hfits hstep
  cases hstep
  exact hs.select i (hsize i) hfits

/-- How often sample `a` has been selected. -/
def selections (s : Rotation W) (a : ℕ) : ℕ := ∑ i, (s.returned i).count a

/-- One rotation over `n` samples: the workers' slots are those reserved, each granted to one
worker, and every worker turns its slots into indices in their order. -/
structure IsRotation (n : ℕ) (s : Rotation W) : Prop where
  inRange : ∀ i, ∀ index ∈ s.returned i, index < n
  granted : ∑ i, (s.granted i : Multiset ℕ) = Multiset.range s.reserved
  slots : ∀ i, s.returned i ++ (s.workers i).held n = (s.granted i).map (· % n)
  indices : ∑ i, ((s.returned i : Multiset ℕ) + ((s.workers i).held n : Multiset ℕ)) =
    (Multiset.range s.reserved).map (· % n)
  balanced : (∀ i, (s.workers i).remaining = 0) →
    ∀ a < n, ∀ b < n, s.selections a ≤ s.selections b + 1
  alone : ∀ i, (∀ j, j = i) → s.returned i = (List.range (s.returned i).length).map (· % n)

theorem Fair.indices (h : Fair n size s) :
    ∑ i, ((s.returned i : Multiset ℕ) + ((s.workers i).held n : Multiset ℕ)) =
      (Multiset.range s.reserved).map (· % n) := by
  have hworker : ∀ i, (s.returned i : Multiset ℕ) + ((s.workers i).held n : Multiset ℕ) =
      (s.granted i : Multiset ℕ).map (· % n) := by
    intro i
    rw [Multiset.coe_add, (h.accounts i).slots, Multiset.map_coe]
  rw [← h.granted, ← Multiset.coe_mapAddMonoidHom, map_sum]
  exact Finset.sum_congr rfl fun i _ => hworker i

/-- Among the first `total` slots two samples differ by at most one. -/
theorem count_range_mod (total : ℕ) {n a b : ℕ} (ha : a < n) (hb : b < n) :
    ((Multiset.range total).map (· % n)).count a ≤
      ((Multiset.range total).map (· % n)).count b + 1 := by
  have hcount : ∀ c < n, ((Multiset.range total).map (· % n)).count c =
      total / n + if c % n < total % n then 1 else 0 := by
    intro c hc
    rw [← Nat.count_modEq_card total (Nat.zero_lt_of_lt hc) c, Multiset.count_map,
      Nat.count_eq_card_filter_range, Finset.card_def, Finset.filter_val, Finset.range_val]
    congr 1
    apply Multiset.filter_congr
    intro slot _
    rw [Nat.ModEq, Nat.mod_eq_of_lt hc, eq_comm]
  rw [hcount a ha, hcount b hb]
  split_ifs
  all_goals omega

theorem Fair.balanced (h : Fair n size s) (hempty : ∀ i, (s.workers i).remaining = 0) {a b : ℕ}
    (ha : a < n) (hb : b < n) : s.selections a ≤ s.selections b + 1 := by
  have hcount : ∀ c, s.selections c = ((Multiset.range s.reserved).map (· % n)).count c := by
    intro c
    rw [← h.indices, Multiset.count_sum']
    apply Finset.sum_congr rfl
    intro i _
    simp [WorkerRoundRobinCursor.held, hempty i]
  rw [hcount a, hcount b]
  exact count_range_mod s.reserved ha hb

theorem Fair.alone (h : Fair n size s) (i : Fin W) (hi : ∀ j, j = i) :
    s.returned i = (List.range (s.returned i).length).map (· % n) := by
  have hall : (s.granted i : Multiset ℕ) = (List.range s.reserved : Multiset ℕ) := by
    have hsum := h.granted
    rwa [Fintype.sum_eq_single i fun j hj => absurd (hi j) hj] at hsum
  have hgranted : s.granted i = List.range s.reserved :=
    (Multiset.coe_eq_coe.mp hall).eq_of_pairwise' (h.ascending i) List.pairwise_lt_range
  have hslots := (h.accounts i).slots
  rw [hgranted] at hslots
  have hlength : (s.returned i).length ≤ s.reserved := by
    have hboth := congrArg List.length hslots
    rw [List.length_append, List.length_map, List.length_range] at hboth
    omega
  calc s.returned i
      = ((List.range s.reserved).map (· % n)).take (s.returned i).length := by
        rw [← hslots, List.take_left]
    _ = (List.range (s.returned i).length).map (· % n) := by
        rw [← List.map_take, List.take_range, min_eq_left hlength]

/-- Every interleaving of calls with blocks of at least one slot is one rotation. -/
theorem rotation_fair {n : ℕ} (hshared : RoundRobinCursor.make n = .ok shared)
    (hsize : ∀ i, 0 < size i)
    (h : (machine shared size).Steps Fits (machine shared size).initial s) : IsRotation n s := by
  unfold RoundRobinCursor.make at hshared
  split_ifs at hshared
  cases hshared
  have hfair := fair_of_steps rfl hsize h
  exact ⟨hfair.returned, hfair.granted, fun i => (hfair.accounts i).slots, hfair.indices,
    fun hempty a ha b hb => hfair.balanced hempty ha hb, hfair.alone⟩

def threeSamples : RoundRobinCursor where
  itemCount := 3
  itemCount_pos := by decide

/-- Two workers with blocks of two slots and of one. -/
def twoWorkers : Rotation 2 := (machine threeSamples ![2, 1]).initial

theorem rotation_fair_twoWorkers : IsRotation 3 ((twoWorkers.select 0).select 1) := by
  have hsize : ∀ i, 0 < ![2, 1] i := by decide
  refine rotation_fair (rfl : RoundRobinCursor.make 3 = .ok threeSamples) hsize ?_
  have hfirst : twoWorkers.Fits 0 := by
    rw [Fits, sizeModulus]
    decide
  have hsecond : (twoWorkers.select 0).Fits 1 := by
    rw [Fits, sizeModulus]
    decide
  exact (Machine.Steps.single 0 hfirst rfl).tail 1 hsecond rfl

/-- One worker whose blocks have no slot at all. -/
def noSlots : Rotation 1 := (machine ⟨2, by decide, 0⟩ fun _ => 0).initial

/-- A block of no slots hands out an index that no slot stands for. -/
theorem rotation_noSlots :
    RoundRobinCursor.make 2 = .ok noSlots.shared ∧
      (machine noSlots.shared fun _ : Fin 1 => 0).Steps Fits noSlots (noSlots.select 0) ∧
      ¬ IsRotation 2 (noSlots.select 0) := by
  refine ⟨rfl, .single 0 ?_ rfl, ?_⟩
  · rw [Fits, sizeModulus]
    decide
  · intro h
    have hslots : [0] ++ ((noSlots.select 0).workers 0).held 2 = [] := h.slots 0
    rw [List.append_eq_nil_iff] at hslots
    exact absurd hslots.1 (List.cons_ne_nil 0 [])

end Rotation
end Application
end LogGenerator
