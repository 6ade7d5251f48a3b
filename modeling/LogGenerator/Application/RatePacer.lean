import LogGenerator.Application.StressTestService
import LogGenerator.Foundation.Overflow

/-!
# The rate limit of a worker

`RatePacer` keeps the point in time before which the next batch may not go out.
Time points are readings of `steady_clock` in nanoseconds, taken from a list.
-/

namespace LogGenerator
namespace Application

open Domain

/-- What a loop test of `wait` meets: the stop request, or else a reading of the clock. -/
inductive Answer where
  | stopRequested
  | reading (now : ℤ)
  deriving DecidableEq

/-- The last reading and what is still to be met. -/
structure SteadyClock where
  last : ℤ
  answers : List Answer
  deriving DecidableEq

structure RatePacer where
  eventsPerSecond : ℕ
  next : ℤ
  deriving DecidableEq

/-- The second loop, which spins until `next`; `none` when the answers end before it does. -/
def spin (next now : ℤ) : List Answer → Option SteadyClock
  | [] => none
  | .stopRequested :: answers => some { last := now, answers := answers }
  | .reading later :: answers =>
    if later < next then spin next later answers else some { last := later, answers := answers }

/-- The first loop, which sleeps until 200 µs before `next`, and then the second. -/
def sleep (next now : ℤ) : List Answer → Option SteadyClock
  | [] => none
  | .stopRequested :: answers => some { last := now, answers := answers }
  | .reading later :: answers =>
    if now + 200000 < next then sleep next later answers
    else spin next now (.reading later :: answers)

namespace RatePacer

/-- The constructor. -/
def make (eventsPerSecond : ℕ) (clock : SteadyClock) : RatePacer where
  eventsPerSecond := eventsPerSecond
  next := clock.last

/-- `duration` in `wait`, with the product in 64 bits. -/
def duration (p : RatePacer) (events : ℕ) : ℤ :=
  toSigned (1000000000 * events % 2 ^ 64 / p.eventsPerSecond)

def wait (p : RatePacer) (events : ℕ) (clock : SteadyClock) : Option (RatePacer × SteadyClock) :=
  if p.eventsPerSecond = 0 ∨ events = 0 then some (p, clock)
  else
    let next := p.next + p.duration events
    match clock.answers with
    | .reading now :: answers =>
      -- More than a second behind: the backlog is forgiven.
      if next + 1000000000 < now then
        some ({ p with next := now }, { last := now, answers := answers })
      else (sleep next now answers).map fun clock => ({ p with next := next }, clock)
    | _ => none

/-- Successive calls, and the last reading before each of them returns. -/
def waits (p : RatePacer) (clock : SteadyClock) : List ℕ → Option (List ℤ)
  | [] => some []
  | events :: rest =>
    match p.wait events clock with
    | none => none
    | some (p, clock) => (p.waits clock rest).map fun times => clock.last :: times

end RatePacer

theorem one_le_quotaForWorker {targetEps workerCount : ℕ} (hpos : 0 < workerCount)
    (hle : workerCount ≤ targetEps) (i : ℕ) : 1 ≤ quotaForWorker targetEps i workerCount := by
  have hbase : 1 ≤ targetEps / workerCount := (Nat.one_le_div_iff hpos).mpr hle
  unfold quotaForWorker
  rw [if_neg (by omega)]
  exact le_add_right hbase

theorem sum_quotaForWorker (targetEps : ℕ) {workerCount : ℕ} (hpos : 0 < workerCount) :
    ∑ i ∈ Finset.range workerCount, quotaForWorker targetEps i workerCount = targetEps := by
  by_cases hzero : targetEps = 0
  · simp [quotaForWorker, hzero]
  have hextra : (Finset.range workerCount).filter (fun i => i < targetEps % workerCount) =
      Finset.range (targetEps % workerCount) := by
    ext i
    have hlt := Nat.mod_lt targetEps hpos
    simp only [Finset.mem_filter, Finset.mem_range]
    omega
  calc ∑ i ∈ Finset.range workerCount, quotaForWorker targetEps i workerCount
      = workerCount * (targetEps / workerCount) + targetEps % workerCount := by
        simp only [quotaForWorker, hzero, ↓reduceIte, Finset.sum_add_distrib, Finset.sum_const,
          Finset.card_range, smul_eq_mul, Finset.sum_boole, hextra, Nat.cast_id]
    _ = targetEps := Nat.div_add_mod targetEps workerCount

/-- `start` never derives more workers than events per second. -/
theorem start_workerCount {optimalWorkerCount : TransportProtocol → ℕ}
    {config run : GeneratorConfig} {workerCount : ℕ}
    (h : start optimalWorkerCount config = .ok (run, workerCount)) (heps : 0 < config.targetEps) :
    run.targetEps = config.targetEps ∧ 0 < workerCount ∧ workerCount ≤ config.targetEps := by
  unfold start at h
  split at h
  · cases h
  split at h
  · cases h
  split at h
  · cases h
  have hclamp : 0 < clamp (optimalWorkerCount config.endpoint.protocol) 1 64 := by
    unfold clamp
    split_ifs <;> omega
  simp only [Except.ok.injEq, Prod.mk.injEq, heps, ↓reduceIte] at h
  obtain ⟨rfl, rfl⟩ := h
  refine ⟨rfl, lt_min ?_ heps, min_le_right _ _⟩
  generalize (if config.endpoint.protocol = .file then TransmissionMode.sequential
    else config.transmissionMode) = mode
  split_ifs
  · exact hclamp
  · exact Nat.one_pos

/-- No stop request is met and the readings do not decrease. -/
def SteadyClock.Monotone (c : SteadyClock) : Prop :=
  ∃ readings, c.answers = readings.map Answer.reading ∧ (c.last :: readings).Pairwise (· ≤ ·)

theorem SteadyClock.Monotone.tail {last now : ℤ} {answers : List Answer}
    (h : SteadyClock.Monotone { last := last, answers := .reading now :: answers }) :
    last ≤ now ∧ SteadyClock.Monotone { last := now, answers := answers } := by
  obtain ⟨_ | ⟨later, readings⟩, hanswers, hsorted⟩ := h
  · simp at hanswers
  · simp only [List.map_cons, List.cons.injEq, Answer.reading.injEq] at hanswers
    obtain ⟨rfl, rfl⟩ := hanswers
    exact ⟨List.rel_of_pairwise_cons hsorted List.mem_cons_self, readings, rfl, hsorted.of_cons⟩

theorem SteadyClock.Monotone.not_stopRequested {last : ℤ} {answers : List Answer}
    (h : SteadyClock.Monotone { last := last, answers := .stopRequested :: answers }) : False := by
  obtain ⟨_ | ⟨now, readings⟩, hanswers, -⟩ := h
  · simp at hanswers
  · simp at hanswers

theorem spin_spec {next now : ℤ} {answers : List Answer} {c : SteadyClock}
    (h : spin next now answers = some c)
    (hclock : SteadyClock.Monotone { last := now, answers := answers }) :
    next ≤ c.last ∧ c.Monotone := by
  induction answers generalizing now with
  | nil => cases h
  | cons answer answers ih =>
    cases answer with
    | stopRequested => exact hclock.not_stopRequested.elim
    | reading later =>
      have hrest := hclock.tail.2
      unfold spin at h
      split_ifs at h with hearly
      · exact ih h hrest
      · cases h
        exact ⟨not_lt.mp hearly, hrest⟩

theorem sleep_spec {next now : ℤ} {answers : List Answer} {c : SteadyClock}
    (h : sleep next now answers = some c)
    (hclock : SteadyClock.Monotone { last := now, answers := answers }) :
    next ≤ c.last ∧ c.Monotone := by
  induction answers generalizing now with
  | nil => cases h
  | cons answer answers ih =>
    cases answer with
    | stopRequested => exact hclock.not_stopRequested.elim
    | reading later =>
      unfold sleep at h
      split_ifs at h with hearly
      · exact ih h hclock.tail.2
      · exact spin_spec h hclock

namespace RatePacer

variable {p p' : RatePacer} {c c' : SteadyClock} {events : ℕ}

/-- The most events one batch can hold. -/
def maximumEvents : ℕ := 614400

theorem product_lt (h : events ≤ maximumEvents) : 1000000000 * events < 2 ^ 64 := by
  unfold maximumEvents at h
  omega

theorem duration_eq (h : events ≤ maximumEvents) :
    p.duration events = (1000000000 * events / p.eventsPerSecond : ℕ) := by
  unfold duration
  rw [Nat.mod_eq_of_lt (product_lt h), toSigned_of_lt]
  have hdiv := Nat.div_le_self (1000000000 * events) p.eventsPerSecond
  unfold maximumEvents at h
  omega

/-- The schedule moves on by at least the duration of the batch, is at most a second behind the
clock that the call started with, and lies behind the clock when the call returns. -/
theorem wait_spec (h : p.wait events c = some (p', c')) (hclock : c.Monotone)
    (hquota : p.eventsPerSecond ≠ 0) (hevents : events ≠ 0) :
    p'.eventsPerSecond = p.eventsPerSecond ∧ p.next + p.duration events ≤ p'.next ∧
      c.last ≤ p'.next + 1000000000 ∧ p'.next ≤ c'.last ∧ c'.Monotone := by
  unfold wait at h
  rw [if_neg (by simp [hquota, hevents])] at h
  obtain ⟨last, answers⟩ := c
  dsimp only at h
  split at h
  next now answers =>
    obtain ⟨hlast, hrest⟩ := hclock.tail
    split_ifs at h with hbehind
    · cases h
      exact ⟨rfl, by dsimp only; omega, by dsimp only; omega, le_rfl, hrest⟩
    · obtain ⟨clock, hsleep, hpair⟩ := Option.map_eq_some_iff.mp h
      cases hpair
      obtain ⟨hreached, hclock'⟩ := sleep_spec hsleep hrest
      exact ⟨rfl, le_rfl, by dsimp only; omega, hreached, hclock'⟩
  next => cases h

/-- The durations of a list of batches in nanoseconds, each rounded down. -/
def durations (q : ℕ) (batches : List ℕ) : ℤ :=
  (batches.map fun events => ((1000000000 * events / q : ℕ) : ℤ)).sum

def ValidBatches (batches : List ℕ) : Prop := ∀ events ∈ batches, 1 ≤ events ∧ events ≤ maximumEvents

/-- No call returns before all batches up to its own are due. -/
theorem waits_schedule {batches : List ℕ} {times : List ℤ} (h : p.waits c batches = some times)
    (hclock : c.Monotone) (hquota : p.eventsPerSecond ≠ 0) (hbatches : ValidBatches batches)
    (hnext : p.next ≤ c.last) {j : ℕ} {t : ℤ} (ht : (c.last :: times)[j]? = some t) :
    p.next + durations p.eventsPerSecond (batches.take j) ≤ t := by
  induction batches generalizing p c times j with
  | nil =>
    cases h
    cases j with
    | zero =>
      cases ht
      simpa [durations] using hnext
    | succ j => simp at ht
  | cons events batches ih =>
    cases j with
    | zero =>
      cases ht
      simpa [durations] using hnext
    | succ j =>
      obtain ⟨hone, hmax⟩ := hbatches events List.mem_cons_self
      unfold waits at h
      split at h
      next => cases h
      next p' c' hwait =>
        obtain ⟨rest, hrest, rfl⟩ := Option.map_eq_some_iff.mp h
        obtain ⟨hq, hnext', -, hlast, hclock'⟩ := wait_spec hwait hclock hquota (by omega)
        have htail := ih hrest hclock' (hq ▸ hquota)
          (fun e he => hbatches e (List.mem_cons_of_mem _ he)) hlast ht
        rw [duration_eq hmax] at hnext'
        rw [hq] at htail
        simp only [durations, List.take_succ_cons, List.map_cons, List.sum_cons] at htail ⊢
        omega

/-- Over any window the batches after the first are due within the window and a second. -/
theorem waits_window {batches : List ℕ} {times : List ℤ} (h : p.waits c batches = some times)
    (hclock : c.Monotone) (hquota : p.eventsPerSecond ≠ 0) (hbatches : ValidBatches batches)
    (hnext : p.next ≤ c.last) {i j : ℕ} (hij : i < j) {ti tj : ℤ}
    (hi : (c.last :: times)[i]? = some ti) (hj : (c.last :: times)[j]? = some tj) :
    durations p.eventsPerSecond ((batches.take j).drop (i + 1)) ≤ tj - ti + 1000000000 := by
  induction batches generalizing p c times i j with
  | nil =>
    cases h
    obtain ⟨j, rfl⟩ := Nat.exists_eq_add_of_lt hij
    simp at hj
  | cons events batches ih =>
    obtain ⟨j, rfl⟩ : ∃ k, j = k + 1 := ⟨j - 1, by omega⟩
    obtain ⟨hone, hmax⟩ := hbatches events List.mem_cons_self
    unfold waits at h
    split at h
    next => cases h
    next p' c' hwait =>
      obtain ⟨rest, hrest, rfl⟩ := Option.map_eq_some_iff.mp h
      obtain ⟨hq, -, hbehind, hlast, hclock'⟩ := wait_spec hwait hclock hquota (by omega)
      have hvalid : ValidBatches batches := fun e he => hbatches e (List.mem_cons_of_mem _ he)
      rw [← hq]
      cases i with
      | zero =>
        cases hi
        have hdue := waits_schedule hrest hclock' (hq ▸ hquota) hvalid hlast hj
        simp only [Nat.zero_add, List.take_succ_cons, List.drop_one, List.tail_cons]
        omega
      | succ i =>
        simp only [List.take_succ_cons, List.drop_succ_cons]
        exact ih hrest hclock' (hq ▸ hquota) hvalid hlast (by omega) hi hj

end RatePacer

/-- The workers' quotas are positive and add up to the target, and the calls of a worker keep to
its quota over every window: `t₀` is the reading of the constructor, `tₖ` the last reading of the
`k`-th call. -/
theorem rate_limit_holds :
    (∀ (optimalWorkerCount : TransportProtocol → ℕ) (config run : GeneratorConfig) (W : ℕ),
      start optimalWorkerCount config = .ok (run, W) → 0 < config.targetEps →
        (∀ i < W, 1 ≤ quotaForWorker run.targetEps i W) ∧
        ∑ i ∈ Finset.range W, quotaForWorker run.targetEps i W = config.targetEps) ∧
    ∀ (q : ℕ) (clock : SteadyClock) (batches : List ℕ) (times : List ℤ),
      1 ≤ q → clock.Monotone → RatePacer.ValidBatches batches →
      (RatePacer.make q clock).waits clock batches = some times →
        (∀ events ∈ batches, 1000000000 * events < 2 ^ 64) ∧
        ∀ (i j : ℕ) (ti tj : ℤ), i < j → (clock.last :: times)[i]? = some ti →
          (clock.last :: times)[j]? = some tj →
          RatePacer.durations q ((batches.take j).drop (i + 1)) ≤ tj - ti + 1000000000 := by
  constructor
  · intro optimalWorkerCount config run W hstart heps
    obtain ⟨htarget, hpos, hle⟩ := start_workerCount hstart heps
    rw [htarget]
    exact ⟨fun i _ => one_le_quotaForWorker hpos hle i, sum_quotaForWorker _ hpos⟩
  · intro q clock batches times hq hclock hbatches hwaits
    refine ⟨fun events h => RatePacer.product_lt (hbatches events h).2, ?_⟩
    intro i j ti tj hij hi hj
    exact RatePacer.waits_window hwaits hclock (Nat.one_le_iff_ne_zero.mp hq) hbatches le_rfl
      hij hi hj

/-- A clock that stalls for ten seconds during the second of four batches. -/
def stalledClock : SteadyClock where
  last := 0
  answers := [0, 500000000, 500000000, 10000000000, 10000000000, 10500000000, 10500000000,
    10500000000, 11000000000, 11000000000].map .reading

/-- Three workers share five events per second; at two events per second the stall is forgiven. -/
theorem rate_limit_holds_stalled :
    (∀ i < 3, 1 ≤ quotaForWorker 5 i 3) ∧
      RatePacer.durations 2 (([1, 1, 1, 1].take 4).drop 2) ≤
        11000000000 - 500000000 + 1000000000 := by
  constructor
  · exact (rate_limit_holds.1 (fun _ => 3)
      { templates := [{ sample := [] }]
        targetEps := 5 } _ 3 rfl (by decide)).1
  · refine (rate_limit_holds.2 2 stalledClock [1, 1, 1, 1]
      [500000000, 10000000000, 10500000000, 11000000000] (by decide) ?_ ?_ (by decide)).2
      1 4 _ _ (by decide) rfl rfl
    · exact ⟨_, rfl, by decide⟩
    · unfold RatePacer.ValidBatches
      decide

end Application
end LogGenerator
