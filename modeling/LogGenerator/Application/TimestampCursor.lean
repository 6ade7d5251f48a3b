import LogGenerator.Application.TimestampFormat
import LogGenerator.Domain.GeneratorConfig
import LogGenerator.Foundation.Machine
import LogGenerator.Foundation.Overflow

/-!
# The timestamps of a worker

In range mode worker `i` of `W` hands out every `W`-th second of the range from
the `i`-th on, around the end. Time points are in nanoseconds; a reading of
`system_clock` is an argument.
-/

namespace LogGenerator
namespace Application

open Domain

structure CachedSystemClock where
  highRate : Bool
  refreshCountdown : ℕ
  cached : ℤ
  deriving DecidableEq

def CachedSystemClock.make (highRate : Bool) (reading : ℤ) : CachedSystemClock where
  highRate := highRate
  refreshCountdown := if highRate then 255 else 0
  cached := reading

def CachedSystemClock.now (c : CachedSystemClock) (reading : ℤ) : ℤ × CachedSystemClock :=
  if c.highRate = false ∨ c.refreshCountdown = 0 then
    (reading,
      { c with
        cached := reading
        refreshCountdown := if c.highRate then 255 else 0 })
  else (c.cached, { c with refreshCountdown := c.refreshCountdown - 1 })

/-- The conversion of a number of seconds to the period of the system clock. -/
def toNanoseconds (seconds : ℤ) : Option ℤ := checked (seconds * nanosecondsPerSecond)

structure TimestampCursor where
  generation : TimestampGeneration
  position : ℕ
  step : ℕ
  span : ℕ
  systemClock : CachedSystemClock
  deriving DecidableEq

namespace TimestampCursor

/-- The constructor. -/
def make (generation : TimestampGeneration) (workerIndex workerCount : ℕ) (highRate : Bool)
    (reading : ℤ) : Except Bytes TimestampCursor :=
  let systemClock := CachedSystemClock.make highRate reading
  match generation.mode with
  | .offset =>
    .ok
      { generation := generation
        position := workerIndex
        step := workerCount
        span := 0
        systemClock := systemClock }
  | .range =>
    let span := generation.range.inclusiveSeconds
    if span = 0 then .error (bytes "Timestamp range is invalid")
    else
      .ok
        { generation := generation
          position := workerIndex % span
          step := workerCount % span
          span := span
          systemClock := systemClock }

/-- What the three assignments to `position_` leave in it. -/
def advance (c : TimestampCursor) : ℕ :=
  let position := (c.position + c.step) % 2 ^ 64
  if c.span ≤ position then position - c.span else position

/-- `none` when the time point overflows. -/
def next (c : TimestampCursor) (reading : ℤ) : Option (ℤ × TimestampCursor) :=
  match c.generation.mode with
  | .offset =>
    let (now, systemClock) := c.systemClock.now reading
    some (now, { c with systemClock := systemClock })
  | .range => do
    let seconds ← checked (c.generation.range.start + toSigned c.position)
    let result ← toNanoseconds seconds
    some (result, { c with position := c.advance })

end TimestampCursor

/-- Both ends of a range that is not empty, as time points of the system clock. -/
structure InClock (r : TimeRange) : Prop where
  valid : r.valid = true
  start : Fits (r.start * nanosecondsPerSecond)
  stop : Fits (r.stop * nanosecondsPerSecond)

variable {r : TimeRange}

theorem inclusiveSeconds_of_valid (h : r.valid = true) :
    (r.inclusiveSeconds : ℤ) = r.stop - r.start + 1 := by
  have hle : r.start ≤ r.stop := by simpa [TimeRange.valid] using h
  unfold TimeRange.inclusiveSeconds
  rw [if_pos h]
  push_cast
  rw [Int.toNat_of_nonneg (by omega)]

theorem InClock.inclusiveSeconds_pos (h : InClock r) : 0 < r.inclusiveSeconds := by
  unfold TimeRange.inclusiveSeconds
  rw [if_pos h.valid]
  omega

theorem InClock.inclusiveSeconds_lt (h : InClock r) : r.inclusiveSeconds < 2 ^ 36 := by
  have hspan := inclusiveSeconds_of_valid h.valid
  have hstart := h.start
  have hstop := h.stop
  unfold Fits nanosecondsPerSecond at hstart hstop
  omega

/-- The seconds of the range, in turn and from the start again after the last. -/
def cyclicSecond (r : TimeRange) (n : ℕ) : ℤ := r.start + (n % r.inclusiveSeconds : ℕ)

theorem InClock.cyclicSecond_mem (h : InClock r) (n : ℕ) :
    r.start ≤ cyclicSecond r n ∧ cyclicSecond r n ≤ r.stop := by
  have hmod := Nat.mod_lt n h.inclusiveSeconds_pos
  have hspan := inclusiveSeconds_of_valid h.valid
  unfold cyclicSecond
  omega

/-- No second of the range overflows, in seconds or in nanoseconds. -/
theorem InClock.toNanoseconds (h : InClock r) {seconds : ℤ} (hstart : r.start ≤ seconds)
    (hstop : seconds ≤ r.stop) :
    checked seconds = some seconds ∧
      toNanoseconds seconds = some (seconds * nanosecondsPerSecond) := by
  have hpoint : Fits (seconds * nanosecondsPerSecond) := by
    apply h.start.between h.stop
    · exact mul_le_mul_of_nonneg_right hstart (by decide)
    · exact mul_le_mul_of_nonneg_right hstop (by decide)
  refine ⟨checked_of_fits ?_, checked_of_fits hpoint⟩
  unfold Fits nanosecondsPerSecond at *
  omega

/-- Worker `i` of `W` after `k` calls. -/
structure TimestampCursor.At (g : TimestampGeneration) (W i k : ℕ) (c : TimestampCursor) :
    Prop where
  generation : c.generation = g
  span : c.span = g.range.inclusiveSeconds
  step : c.step = W % g.range.inclusiveSeconds
  position : c.position = (i + k * W) % g.range.inclusiveSeconds

variable {g : TimestampGeneration} {W i k : ℕ} {c : TimestampCursor}

theorem TimestampCursor.exists_make (hmode : g.mode = .range) (hrange : InClock g.range)
    (W i : ℕ) (highRate : Bool) (reading : ℤ) :
    ∃ c, TimestampCursor.make g i W highRate reading = .ok c ∧ c.At g W i 0 := by
  have hpos : g.range.inclusiveSeconds ≠ 0 := hrange.inclusiveSeconds_pos.ne'
  unfold TimestampCursor.make
  simp only [hmode, hpos, ↓reduceIte, Except.ok.injEq, exists_eq_left']
  exact ⟨rfl, rfl, rfl, by rw [Nat.zero_mul, Nat.add_zero]⟩

theorem TimestampCursor.At.bounds (h : c.At g W i k) (hrange : InClock g.range) :
    c.position < c.span ∧ c.step < c.span ∧ c.position + c.step < 2 ^ 64 := by
  have hposition : c.position < c.span := by
    rw [h.position, h.span]
    exact Nat.mod_lt _ hrange.inclusiveSeconds_pos
  have hstep : c.step < c.span := by
    rw [h.step, h.span]
    exact Nat.mod_lt _ hrange.inclusiveSeconds_pos
  have hspan : c.span < 2 ^ 36 := h.span ▸ hrange.inclusiveSeconds_lt
  omega

/-- The one conditional subtraction is the remainder. -/
theorem TimestampCursor.At.advance (h : c.At g W i k) (hrange : InClock g.range) :
    c.advance = (i + (k + 1) * W) % g.range.inclusiveSeconds := by
  obtain ⟨-, -, hwrap⟩ := h.bounds hrange
  have hsum : i + (k + 1) * W = i + k * W + W := by ring
  unfold TimestampCursor.advance
  rw [Nat.mod_eq_of_lt hwrap, hsum, Nat.add_mod_eq_ite, h.position, h.step, h.span]

theorem TimestampCursor.At.next (h : c.At g W i k) (hmode : g.mode = .range)
    (hrange : InClock g.range) (reading : ℤ) :
    ∃ c', c.next reading =
        some (cyclicSecond g.range (i + k * W) * nanosecondsPerSecond, c') ∧
      c'.At g W i (k + 1) := by
  obtain ⟨hposition, -, -⟩ := h.bounds hrange
  have hspan : c.span < 2 ^ 36 := h.span ▸ hrange.inclusiveSeconds_lt
  have hsecond : g.range.start + toSigned c.position = cyclicSecond g.range (i + k * W) := by
    rw [toSigned_of_lt (by omega), h.position, cyclicSecond]
  obtain ⟨hstart, hstop⟩ := hrange.cyclicSecond_mem (i + k * W)
  obtain ⟨hseconds, hpoint⟩ := hrange.toNanoseconds hstart hstop
  refine ⟨{ c with position := c.advance }, ?_, h.generation, h.span, h.step, h.advance hrange⟩
  unfold TimestampCursor.next
  simp only [h.generation, hmode, hsecond, hseconds, hpoint, Option.bind_eq_bind,
    Option.bind_some]

/-- The cursors of the workers and the time points each has handed out. -/
structure Handout (W : ℕ) where
  cursors : Fin W → TimestampCursor
  handed : Fin W → List ℤ := fun _ => []

/-- Worker `i` calls `next`. -/
def Handout.call {W : ℕ} (s : Handout W) (i : Fin W) (reading : ℤ) : Option (Handout W) :=
  match (s.cursors i).next reading with
  | none => none
  | some (point, cursor) => some
    { cursors := Function.update s.cursors i cursor
      handed := Function.update s.handed i (s.handed i ++ [point]) }

def handout {W : ℕ} (cursors : Fin W → TimestampCursor) : Machine (Handout W) (Fin W × ℤ) where
  initial := { cursors := cursors }
  step s a := s.call a.1 a.2

/-- What worker `i` has handed out in `k` calls. -/
def strideOf (r : TimeRange) (W i k : ℕ) : List ℤ :=
  (List.range k).map fun j => cyclicSecond r (i + j * W) * nanosecondsPerSecond

theorem strideOf_succ (r : TimeRange) (W i k : ℕ) :
    strideOf r W i (k + 1) =
      strideOf r W i k ++ [cyclicSecond r (i + k * W) * nanosecondsPerSecond] := by
  simp [strideOf, List.range_succ]

/-- Every worker stands where its calls have taken it. -/
def Sharing (g : TimestampGeneration) {W : ℕ} (s : Handout W) : Prop :=
  ∀ i, (s.cursors i).At g W i (s.handed i).length ∧
    s.handed i = strideOf g.range W i (s.handed i).length

theorem Sharing.call {W : ℕ} {s : Handout W} (h : Sharing g s) (hmode : g.mode = .range)
    (hrange : InClock g.range) (i : Fin W) (reading : ℤ) :
    ∃ s', s.call i reading = some s' ∧ Sharing g s' := by
  obtain ⟨hat, hhanded⟩ := h i
  obtain ⟨c, hnext, hc⟩ := hat.next hmode hrange reading
  refine ⟨_, by rw [Handout.call, hnext], fun j => ?_⟩
  by_cases hj : j = i
  · subst hj
    simp only [Function.update_self, List.length_append, List.length_singleton]
    exact ⟨hc, by rw [strideOf_succ, ← hhanded]⟩
  · simp only [Function.update_of_ne hj]
    exact h j

theorem Sharing.of_reachable {W : ℕ} {cursors : Fin W → TimestampCursor} {s : Handout W}
    (h : (handout cursors).Reachable s) (hmode : g.mode = .range) (hrange : InClock g.range)
    (hcursors : ∀ i, (cursors i).At g W i 0) : Sharing g s := by
  apply h.invariant
  · intro i
    exact ⟨hcursors i, rfl⟩
  · rintro s ⟨i, reading⟩ t hs - hstep
    obtain ⟨t', hcall, ht'⟩ := hs.call hmode hrange i reading
    have ht : t' = t := Option.some.inj (hcall.symm.trans hstep)
    exact ht ▸ ht'

/-- The strides of `W` workers, `m` steps each, enumerate the first `m * W` numbers. -/
theorem sum_strides {α : Type*} (f : ℕ → α) (m W : ℕ) :
    ∑ i : Fin W, (((List.range m).map fun j => f (i + j * W) : List α) : Multiset α) =
      (Multiset.range (m * W)).map f := by
  induction m with
  | zero => simp
  | succ m ih =>
    have hround : ∑ i : Fin W, ({f (i + m * W)} : Multiset α) =
        (Multiset.range W).map fun i => f (m * W + i) := by
      have hmap := Multiset.sum_map_singleton ((Multiset.range W).map fun i => f (m * W + i))
      rw [Multiset.map_map] at hmap
      rw [Fin.sum_univ_eq_sum_range (fun i => ({f (i + m * W)} : Multiset α)), ← hmap]
      simp [Finset.sum, Nat.add_comm]
    have hsplit : ∀ i : Fin W,
        (((List.range (m + 1)).map fun j => f (i + j * W) : List α) : Multiset α) =
          ((List.range m).map fun j => f (i + j * W) : List α) + {f (i + m * W)} := by
      intro i
      simp [List.range_succ, ← Multiset.coe_add]
    simp only [hsplit, Finset.sum_add_distrib, ih, hround, Nat.succ_mul, Multiset.range_add,
      Multiset.map_add, Multiset.map_map, Function.comp_def]

/-- The workers share out a range that the system clock holds: nothing overflows or wraps, the
`k`-th call of worker `i` gives second `i + k * W` of the cyclic enumeration, and once every
worker has made `m` calls the first `m * W` of the enumeration are handed out. -/
theorem workers_share_range (g : TimestampGeneration) (hmode : g.mode = .range)
    (hrange : InClock g.range) (W : ℕ) (highRate : Bool) (reading : Fin W → ℤ) :
    ∃ cursors : Fin W → TimestampCursor,
      (∀ i : Fin W, TimestampCursor.make g i W highRate (reading i) = .ok (cursors i)) ∧
      ∀ s, (handout cursors).Reachable s →
        (∀ i, (s.cursors i).span = g.range.inclusiveSeconds ∧
          (s.cursors i).position < (s.cursors i).span ∧
          (s.cursors i).step < (s.cursors i).span ∧
          (s.cursors i).position + (s.cursors i).step < 2 ^ 64) ∧
        (∀ i now, s.call i now ≠ none) ∧
        (∀ i k point, (s.handed i)[k]? = some point →
          point = cyclicSecond g.range (i + k * W) * nanosecondsPerSecond ∧
          g.range.start * nanosecondsPerSecond ≤ point ∧
          point ≤ g.range.stop * nanosecondsPerSecond) ∧
        ∀ m, (∀ i, (s.handed i).length = m) →
          ∑ i, (s.handed i : Multiset ℤ) = (Multiset.range (m * W)).map fun n =>
            cyclicSecond g.range n * nanosecondsPerSecond := by
  choose cursors hmake hat using fun i : Fin W =>
    TimestampCursor.exists_make hmode hrange W i highRate (reading i)
  refine ⟨cursors, hmake, fun s hs => ?_⟩
  have hsharing := Sharing.of_reachable hs hmode hrange hat
  refine ⟨fun i => ⟨(hsharing i).1.span, (hsharing i).1.bounds hrange⟩, ?_, ?_, ?_⟩
  · intro i now
    obtain ⟨s', hcall, -⟩ := hsharing.call hmode hrange i now
    simp [hcall]
  · intro i k point hpoint
    rw [(hsharing i).2] at hpoint
    obtain ⟨hk, rfl⟩ := List.getElem?_eq_some_iff.mp hpoint
    have hvalue : (strideOf g.range W i (s.handed i).length)[k] =
        cyclicSecond g.range (i + k * W) * nanosecondsPerSecond := by
      simp [strideOf]
    obtain ⟨hstart, hstop⟩ := hrange.cyclicSecond_mem (i + k * W)
    rw [hvalue]
    refine ⟨rfl, ?_, ?_⟩
    · exact mul_le_mul_of_nonneg_right hstart (by decide)
    · exact mul_le_mul_of_nonneg_right hstop (by decide)
  · intro m hm
    rw [← sum_strides]
    apply Finset.sum_congr rfl
    intro i _
    rw [(hsharing i).2, hm i, strideOf]

/-- Three workers and a range of two seconds. -/
theorem workers_share_range_two_seconds : ∃ cursors : Fin 3 → TimestampCursor,
    ∀ s, (handout cursors).Reachable s → (∀ i, (s.handed i).length = 4) →
      ∑ i, (s.handed i : Multiset ℤ) = (Multiset.range 12).map fun n =>
        cyclicSecond { start := -1, stop := 0 } n * nanosecondsPerSecond := by
  obtain ⟨cursors, -, hruns⟩ := workers_share_range
    { mode := .range
      range := { start := -1, stop := 0 } } rfl ⟨rfl, by decide, by decide⟩ 3 true fun _ => 0
  exact ⟨cursors, fun s hs hcalls => (hruns s hs).2.2.2 4 hcalls⟩

end Application
end LogGenerator
