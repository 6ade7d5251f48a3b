import LogGenerator.Application.PreparedLog

/-!
# The round robin over the samples

Workers reserve blocks of slots from one shared counter and walk through them on
their own. Both counters are of type `std::size_t`.
-/

namespace LogGenerator
namespace Application

def sizeModulus : ℕ := 2 ^ 64

structure RoundRobinCursor where
  itemCount : ℕ
  itemCount_pos : 0 < itemCount
  next : ℕ := 0

/-- The constructor. -/
def RoundRobinCursor.make (itemCount : ℕ) : Except Bytes RoundRobinCursor :=
  if h : 0 < itemCount then
    .ok
      { itemCount := itemCount
        itemCount_pos := h }
  else .error (bytes "Round-robin item count must be greater than zero")

def RoundRobinCursor.reserve (c : RoundRobinCursor) (count : ℕ) : ℕ × RoundRobinCursor :=
  if c.itemCount = 1 then (0, c)
  else (c.next % c.itemCount, { c with next := (c.next + count) % sizeModulus })

structure WorkerRoundRobinCursor where
  reservationSize : ℕ
  current : ℕ := 0
  remaining : ℕ := 0

/-- A new block when the last one is used up. -/
def WorkerRoundRobinCursor.refill (w : WorkerRoundRobinCursor) (shared : RoundRobinCursor) :
    WorkerRoundRobinCursor × RoundRobinCursor :=
  if w.remaining = 0 then
    ({ w with
      current := (shared.reserve w.reservationSize).1
      remaining := w.reservationSize }, (shared.reserve w.reservationSize).2)
  else (w, shared)

def WorkerRoundRobinCursor.next (w : WorkerRoundRobinCursor) (shared : RoundRobinCursor) :
    ℕ × WorkerRoundRobinCursor × RoundRobinCursor :=
  let (w, shared) := w.refill shared
  (w.current,
    { w with
      current := if w.current + 1 = shared.itemCount then 0 else w.current + 1
      remaining := (w.remaining + (sizeModulus - 1)) % sizeModulus }, shared)

/-- The block size that `run_worker` asks for. -/
def reservationSize (quota : ℕ) : ℕ := if quota = 0 ∨ 10000 ≤ quota then 256 else 1

theorem reserve_itemCount (c : RoundRobinCursor) (count : ℕ) :
    (c.reserve count).2.itemCount = c.itemCount := by
  unfold RoundRobinCursor.reserve
  split_ifs
  · rfl
  · rfl

theorem succ_mod (k : ℕ) {n : ℕ} (hpos : 0 < n) :
    (k + 1) % n = if k % n + 1 = n then 0 else k % n + 1 := by
  rw [← Nat.mod_add_mod]
  split_ifs with hlast
  · rw [hlast, Nat.mod_self]
  · have hlt := Nat.mod_lt k hpos
    exact Nat.mod_eq_of_lt (by omega)

/-- After `k` selections by the only worker: its block ends where the shared counter is, and
holds the slots from `k` on. -/
structure Aligned (n size k : ℕ) (w : WorkerRoundRobinCursor) (shared : RoundRobinCursor) :
    Prop where
  itemCount : shared.itemCount = n
  reservationSize : w.reservationSize = size
  remaining : w.remaining ≤ size
  next : n ≠ 1 → shared.next = (k + w.remaining) % sizeModulus
  current : w.remaining ≠ 0 → w.current = k % n

theorem aligned_initial (shared : RoundRobinCursor) (size : ℕ) (h : shared.next = 0) :
    Aligned shared.itemCount size 0 { reservationSize := size } shared :=
  ⟨rfl, rfl, Nat.zero_le _, fun _ => h, fun h => absurd rfl h⟩

theorem Aligned.refill {n size k : ℕ} {w : WorkerRoundRobinCursor} {shared : RoundRobinCursor}
    (h : Aligned n size k w shared) (hsize : 0 < size) (hk : k < sizeModulus) :
    Aligned n size k (w.refill shared).1 (w.refill shared).2 ∧
      (w.refill shared).1.remaining ≠ 0 := by
  unfold WorkerRoundRobinCursor.refill
  split_ifs with hempty
  · have hcurrent : (shared.reserve w.reservationSize).1 = k % n := by
      unfold RoundRobinCursor.reserve
      split_ifs with hone
      · rw [← h.itemCount, hone, Nat.mod_one]
      · dsimp only
        rw [h.next (h.itemCount ▸ hone), hempty, Nat.add_zero, Nat.mod_eq_of_lt hk, h.itemCount]
    have hnext : n ≠ 1 → (shared.reserve w.reservationSize).2.next = (k + size) % sizeModulus := by
      intro hn
      have hone : shared.itemCount ≠ 1 := by rwa [h.itemCount]
      rw [RoundRobinCursor.reserve, if_neg hone, h.next hn, hempty, Nat.add_zero,
        Nat.mod_add_mod, h.reservationSize]
    refine ⟨⟨?_, h.reservationSize, ?_, ?_, fun _ => hcurrent⟩, ?_⟩
    · rw [reserve_itemCount, h.itemCount]
    · exact h.reservationSize.le
    · dsimp only
      rw [h.reservationSize]
      rw [h.reservationSize] at hnext
      exact hnext
    · dsimp only
      rw [h.reservationSize]
      omega
  · exact ⟨h, hempty⟩

/-- The worker selects the samples in turn. -/
theorem Aligned.select {n size k : ℕ} {w : WorkerRoundRobinCursor} {shared : RoundRobinCursor}
    (h : Aligned n size k w shared) (hsize : 0 < size) (hlimit : size < sizeModulus)
    (hk : k < sizeModulus) :
    (w.next shared).1 = k % n ∧ Aligned n size (k + 1) (w.next shared).2.1 (w.next shared).2.2 := by
  obtain ⟨hfilled, hremaining⟩ := h.refill hsize hk
  unfold WorkerRoundRobinCursor.next
  generalize w.refill shared = filled at hfilled hremaining
  obtain ⟨w, shared⟩ := filled
  dsimp only at hfilled hremaining ⊢
  have hpos : 0 < n := hfilled.itemCount ▸ shared.itemCount_pos
  have hcurrent := hfilled.current hremaining
  have hsmall := hfilled.remaining
  have hless : (w.remaining + (sizeModulus - 1)) % sizeModulus = w.remaining - 1 := by
    have hshift : w.remaining + (sizeModulus - 1) = w.remaining - 1 + sizeModulus := by omega
    rw [hshift, Nat.add_mod_right, Nat.mod_eq_of_lt (by omega)]
  refine ⟨hcurrent, ⟨hfilled.itemCount, hfilled.reservationSize, ?_, ?_, ?_⟩⟩
  · dsimp only
    omega
  · intro hn
    dsimp only
    have hsum : k + 1 + (w.remaining - 1) = k + w.remaining := by omega
    rw [hless, hfilled.next hn, hsum]
  · intro _
    dsimp only
    rw [hcurrent, hfilled.itemCount, succ_mod k hpos]

/-- The worker's own copy of the logs, its cursor and the shared one. -/
structure SampleSource where
  logs : List PreparedLog
  selection : WorkerRoundRobinCursor
  shared : RoundRobinCursor

/-- `logs[selection.next()].render(now, calendar_time)`. -/
def SampleSource.next (localTime : ℤ → Tm) (now : ℤ) (calendarTime : Bool) (g : SampleSource) :
    Bytes × SampleSource :=
  let (index, selection, shared) := g.selection.next g.shared
  match g.logs[index]? with
  | some log =>
    let (output, log) := log.render localTime now calendarTime
    (output,
      { logs := g.logs.set index log
        selection := selection
        shared := shared })
  -- Not reached: every index selected is less than the number of logs.
  | none =>
    ([],
      { g with
        selection := selection
        shared := shared })

/-- The source after `k` payloads, rendered for the times that the clock hands out. -/
def SampleSource.after (localTime : ℤ → Tm) (times : ℕ → ℤ) (calendarTime : Bool)
    (g : SampleSource) : ℕ → SampleSource
  | 0 => g
  | k + 1 => ((g.after localTime times calendarTime k).next localTime (times k) calendarTime).2

def SampleSource.payload (localTime : ℤ → Tm) (times : ℕ → ℤ) (calendarTime : Bool)
    (g : SampleSource) (k : ℕ) : Bytes :=
  ((g.after localTime times calendarTime k).next localTime (times k) calendarTime).1

/-- The calls that log `j` of `n` gets in the first `k` selections. -/
def callsOf (times : ℕ → ℤ) (calendarTime : Bool) (n j k : ℕ) : List RenderCall :=
  ((List.range k).filter fun i => i % n = j).map fun i => ⟨times i, calendarTime⟩

/-- What `log` returns at selection `k`, after all its earlier selections. -/
def renderedAt (localTime : ℤ → Tm) (times : ℕ → ℤ) (calendarTime : Bool) (n k : ℕ)
    (log : PreparedLog) : Bytes :=
  ((renderAll localTime (callsOf times calendarTime n (k % n) k) log).2.render localTime (times k)
    calendarTime).1

theorem callsOf_succ (times : ℕ → ℤ) (calendarTime : Bool) (n j k : ℕ) :
    callsOf times calendarTime n j (k + 1) =
      callsOf times calendarTime n j k ++ if k % n = j then [⟨times k, calendarTime⟩] else [] := by
  rw [callsOf, List.range_succ, List.filter_append, List.map_append, callsOf]
  congr 1
  split_ifs with h
  · simp [h]
  · simp [h]

theorem renderAll_append (localTime : ℤ → Tm) (calls : List RenderCall) (call : RenderCall)
    (p : PreparedLog) : (renderAll localTime (calls ++ [call]) p).2 =
      ((renderAll localTime calls p).2.render localTime call.now call.calendarTime).2 := by
  induction calls generalizing p with
  | nil => rfl
  | cons first calls ih => exact ih _

variable {localTime : ℤ → Tm} {times : ℕ → ℤ} {calendarTime : Bool}

/-- After `k` payloads the cursors are aligned and each log has had its own calls. -/
structure Turned (localTime : ℤ → Tm) (times : ℕ → ℤ) (calendarTime : Bool)
    (logs : List PreparedLog) (size k : ℕ) (g : SampleSource) : Prop where
  aligned : Aligned logs.length size k g.selection g.shared
  logs : ∀ j, g.logs[j]? = logs[j]?.map fun log =>
    (renderAll localTime (callsOf times calendarTime logs.length j k) log).2

/-- One payload: it comes from the log whose turn it is. -/
theorem Turned.next {logs : List PreparedLog} {size k : ℕ} {g : SampleSource}
    (h : Turned localTime times calendarTime logs size k g) (hsize : 0 < size)
    (hlimit : size < sizeModulus) (hk : k < sizeModulus) :
    (∃ log, logs[k % logs.length]? = some log ∧
      (g.next localTime (times k) calendarTime).1 =
        renderedAt localTime times calendarTime logs.length k log) ∧
    Turned localTime times calendarTime logs size (k + 1)
      (g.next localTime (times k) calendarTime).2 := by
  obtain ⟨hindex, haligned⟩ := h.aligned.select hsize hlimit hk
  have hpos : 0 < logs.length := h.aligned.itemCount ▸ g.shared.itemCount_pos
  have hbound : k % logs.length < logs.length := Nat.mod_lt k hpos
  have hlog := h.logs (k % logs.length)
  rw [List.getElem?_eq_getElem hbound, Option.map_some] at hlog
  unfold SampleSource.next
  generalize g.selection.next g.shared = selected at hindex haligned
  obtain ⟨index, selection, shared⟩ := selected
  dsimp only at hindex haligned ⊢
  subst hindex
  rw [hlog]
  refine ⟨⟨_, List.getElem?_eq_getElem hbound, rfl⟩, haligned, ?_⟩
  intro j
  dsimp only
  rw [callsOf_succ]
  by_cases hj : k % logs.length = j
  · subst hj
    have hg : k % logs.length < g.logs.length := (List.getElem?_eq_some_iff.mp hlog).1
    rw [if_pos rfl, List.getElem?_set_self hg, List.getElem?_eq_getElem hbound, Option.map_some,
      renderAll_append]
  · rw [if_neg hj, List.append_nil, List.getElem?_set_ne hj]
    exact h.logs j

end Application
end LogGenerator
