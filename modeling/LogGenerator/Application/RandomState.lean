import LogGenerator.Application.PreparedLog
import LogGenerator.Foundation.Machine
import LogGenerator.Foundation.XorLinear

/-!
# The states that choose the profiles

Every construction and every copy of a prepared log draws a state from a counter
that all of them share; every render advances the state of its own log.
-/

namespace LogGenerator
namespace Application

open PrivacyAnonymizer

namespace PreparedLog

/-- The state drawn when the counter holds `sequence`, and what the counter holds then. -/
def initializeRandomState (sequence : UInt64) : UInt64 × UInt64 :=
  let value := sequence ^^^ (sequence >>> 30)
  let value := value * 0xBF58476D1CE4E5B9
  let value := value ^^^ (value >>> 27)
  let value := value * 0x94D049BB133111EB
  let value := value ^^^ (value >>> 31)
  (if value == 0 then 0xA0761D6478BD642F else value, sequence + 0x9E3779B97F4A7C15)

/-- The index returned, and the state left. -/
def nextProfileIndex (state : UInt64) : ℕ × UInt64 :=
  let state := advance state
  ((state * 0x2545F4914F6CDD1D).toNat % syntheticProfileCount, state)

theorem initializeRandomState_ne_zero (sequence : UInt64) :
    (initializeRandomState sequence).1 ≠ 0 := by
  unfold initializeRandomState
  dsimp only
  split_ifs with hzero
  · decide
  · simpa using hzero

theorem nextProfileIndex_lt (state : UInt64) :
    (nextProfileIndex state).1 < syntheticProfileCount :=
  Nat.mod_lt _ (by decide)

/-- The three shifts of `advance`. -/
def advanceBits (x : BitVec 64) : BitVec 64 :=
  let x := x ^^^ (x >>> 12)
  let x := x ^^^ (x <<< 25)
  x ^^^ (x >>> 27)

theorem toBitVec_advance (state : UInt64) :
    (advance state).toBitVec = advanceBits state.toBitVec :=
  rfl

theorem advanceBits_xor (u v : BitVec 64) :
    advanceBits (u ^^^ v) = advanceBits u ^^^ advanceBits v := by
  have hright (n : ℕ) (a b : BitVec 64) :
      (a ^^^ b) ^^^ ((a ^^^ b) >>> n) = (a ^^^ (a >>> n)) ^^^ (b ^^^ (b >>> n)) := by
    rw [BitVec.ushiftRight_xor_distrib]
    ac_rfl
  have hleft (n : ℕ) (a b : BitVec 64) :
      (a ^^^ b) ^^^ ((a ^^^ b) <<< n) = (a ^^^ (a <<< n)) ^^^ (b ^^^ (b <<< n)) := by
    rw [BitVec.shiftLeft_xor_distrib]
    ac_rfl
  unfold advanceBits
  dsimp only
  rw [hright 12 u v, hleft 25, hright 27]

set_option maxRecDepth 100000 in
theorem advance_injective : Function.Injective advance := by
  intro a b h
  have hbits : XorLinear.independent 64 (XorLinear.columns advanceBits 64) = true := by decide
  apply UInt64.toBitVec_inj.mp
  apply XorLinear.injective_of_independent advanceBits_xor hbits
  rw [← toBitVec_advance, ← toBitVec_advance, h]

theorem advance_bijective : Function.Bijective advance := by
  have : Finite UInt64 := Finite.of_injective UInt64.toFin fun _ _ => UInt64.toFin_inj.mp
  exact Finite.injective_iff_bijective.mp advance_injective

theorem advance_eq_zero_iff (state : UInt64) : advance state = 0 ↔ state = 0 :=
  advance_injective.eq_iff' (show advance 0 = 0 by decide)

set_option maxRecDepth 100000 in
/-- No other state stays where it is. -/
theorem advance_eq_self_iff (state : UInt64) : advance state = state ↔ state = 0 := by
  constructor
  · intro h
    have hmoves : XorLinear.independent 64
        (XorLinear.columns (fun x => advanceBits x ^^^ x) 64) = true := by decide
    have hxor (u v : BitVec 64) : advanceBits (u ^^^ v) ^^^ (u ^^^ v) =
        (advanceBits u ^^^ u) ^^^ (advanceBits v ^^^ v) := by
      rw [advanceBits_xor]
      ac_rfl
    apply UInt64.toBitVec_inj.mp
    apply XorLinear.eq_zero_of_independent hxor hmoves
    rw [← toBitVec_advance, h, BitVec.xor_self]
  · rintro rfl
    decide

/-- A render leaves the state or advances it. -/
theorem render_randomState (localTime : ℤ → Tm) (p : PreparedLog) (now : ℤ)
    (calendarTime : Bool) :
    (p.render localTime now calendarTime).2.randomState = p.randomState ∨
      (p.render localTime now calendarTime).2.randomState = (nextProfileIndex p.randomState).2 := by
  have hrebuild (q : PreparedLog) (profile : ProfileIndex) (point : ℤ) :
      (q.rebuild localTime profile point calendarTime).2.randomState = q.randomState := by
    unfold rebuild refreshIfStale
    dsimp only
    split_ifs <;> rfl
  unfold render
  dsimp only
  split_ifs
  all_goals first
    | exact .inl rfl
    | exact .inr rfl
    | exact .inl (hrebuild _ _ _)
    | exact .inr (hrebuild _ _ _)

end PreparedLog

/-- All prepared logs of the process, in the order of their construction. -/
structure LogStore where
  sequence : UInt64
  logs : List PreparedLog

inductive LogAction where
  | construct (compiled : CompiledLog) (sourceIp destinationIp : Bytes) (offset : ℤ)
  | copy (source : ℕ)
  | assign (target source : ℕ)
  | render (target : ℕ) (now : ℤ) (calendarTime : Bool)

namespace LogStore

open PreparedLog

def step (localTime : ℤ → Tm) (s : LogStore) : LogAction → Option LogStore
  | .construct compiled sourceIp destinationIp offset =>
    let (randomState, sequence) := initializeRandomState s.sequence
    some ⟨sequence, s.logs ++ [bind compiled sourceIp destinationIp offset randomState]⟩
  | .copy source =>
    let (randomState, sequence) := initializeRandomState s.sequence
    s.logs[source]?.map fun other => ⟨sequence, s.logs ++ [other.copy randomState]⟩
  | .assign target source =>
    let (randomState, sequence) := initializeRandomState s.sequence
    if target ≠ source then
      s.logs[source]?.map fun other => ⟨sequence, s.logs.set target (other.copy randomState)⟩
    else some s
  | .render target now calendarTime =>
    s.logs[target]?.map fun p =>
      { s with logs := s.logs.set target (p.render localTime now calendarTime).2 }

/-- No log is stuck at zero. -/
def Alive (s : LogStore) : Prop := ∀ p ∈ s.logs, p.randomState ≠ 0

variable {localTime : ℤ → Tm} {s t : LogStore}

theorem Alive.append {p : PreparedLog} (h : s.Alive) (hp : p.randomState ≠ 0) (sequence : UInt64) :
    Alive ⟨sequence, s.logs ++ [p]⟩ := by
  intro q hq
  rcases List.mem_append.mp hq with hold | hnew
  · exact h q hold
  · rw [List.mem_singleton.mp hnew]
    exact hp

theorem Alive.set {p : PreparedLog} (h : s.Alive) (hp : p.randomState ≠ 0) (sequence : UInt64)
    (target : ℕ) : Alive ⟨sequence, s.logs.set target p⟩ := by
  intro q hq
  rcases List.mem_or_eq_of_mem_set hq with hold | rfl
  · exact h q hold
  · exact hp

theorem alive_step {action : LogAction} (h : s.Alive) (hstep : s.step localTime action = some t) :
    t.Alive := by
  have hdrawn := initializeRandomState_ne_zero s.sequence
  cases action with
  | construct compiled sourceIp destinationIp offset =>
    rw [← Option.some.inj hstep]
    exact h.append hdrawn _
  | copy source =>
    obtain ⟨other, -, rfl⟩ := Option.map_eq_some_iff.mp hstep
    exact h.append hdrawn _
  | assign target source =>
    unfold step at hstep
    dsimp only at hstep
    split_ifs at hstep
    · obtain ⟨other, -, rfl⟩ := Option.map_eq_some_iff.mp hstep
      exact h.set hdrawn _ target
    · cases hstep
      exact h
  | render target now calendarTime =>
    obtain ⟨p, hp, rfl⟩ := Option.map_eq_some_iff.mp hstep
    have hbefore := h p (List.mem_of_getElem? hp)
    apply h.set
    rcases render_randomState localTime p now calendarTime with hsame | hnext
    · rw [hsame]
      exact hbefore
    · rw [hnext]
      exact mt (advance_eq_zero_iff p.randomState).mp hbefore

end LogStore

/-- The store with the counter at `sequence`; other parts of the process may have drawn before. -/
def preparedLogs (localTime : ℤ → Tm) (sequence : UInt64) : Machine LogStore LogAction where
  initial := ⟨sequence, []⟩
  step := LogStore.step localTime

open PreparedLog in
/-- No draw gives zero, the step on states permutes them and moves all but zero, and so no log
ever has the state zero. -/
theorem profileGenerator_alive :
    (∀ sequence, (initializeRandomState sequence).1 ≠ 0) ∧
    (Function.Bijective (fun state => (nextProfileIndex state).2) ∧
      (∀ state, (nextProfileIndex state).2 = 0 ↔ state = 0) ∧
      ∀ state, (nextProfileIndex state).2 = state ↔ state = 0) ∧
    (∀ state, (nextProfileIndex state).1 < syntheticProfileCount) ∧
    ∀ localTime sequence s, (preparedLogs localTime sequence).Reachable s → s.Alive := by
  refine ⟨initializeRandomState_ne_zero, ⟨advance_bijective, advance_eq_zero_iff,
    advance_eq_self_iff⟩, nextProfileIndex_lt, ?_⟩
  intro localTime sequence s h
  apply h.invariant (List.forall_mem_nil _)
  intro s action t halive _ hstep
  exact LogStore.alive_step halive hstep

end Application
end LogGenerator
