import LogGenerator.Foundation.Overflow
import LogGenerator.Infrastructure.FileTransport
import LogGenerator.Presentation.CliApp

/-!
# Duration limits

The loop of `CliApp::run_generator`, and the duration check of the FILE transport, in the
nanoseconds of a 64-bit steady clock. Clock readings are arguments.
-/

namespace LogGenerator
namespace Presentation

open Application Domain Infrastructure CliApp

/-- `limit > 0 && now - started >= limit`, with a limit in units of that many nanoseconds;
`none` when a conversion overflows. -/
def limitPassed (unit limit started now : ℤ) : Option Bool :=
  if 0 < limit then do
    let elapsed ← checked (now - started)
    let limit ← checked (limit * unit)
    return decide (limit ≤ elapsed)
  else some false

/-- `options.status_interval` after a clock reading. -/
def statusTime (options : CliOptions) (now : ℤ) : Option ℤ := do
  let interval ← checked (options.statusInterval * 1000000)
  checked (now + interval)

def durationPassed (options : CliOptions) (started now : ℤ) : Option Bool :=
  limitPassed 1000000000 options.duration started now

structure Monitor where
  started : ℤ
  nextStatus : ℤ
  stopRequested : Bool := false

/-- What one turn of the loop comes to: the result of the run, or another turn. -/
inductive Turn where
  | leave (result : ℕ)
  | again (monitor : Monitor) (requestedStop printed : Bool)

def startMonitor (options : CliOptions) (started : ℤ) : Option Monitor := do
  let nextStatus ← statusTime options started
  return { started := started, nextStatus := nextStatus }

/-- The condition under which a turn asks for the stop. -/
def stopDue (options : CliOptions) (signalled : Bool) (now : ℤ) (m : Monitor) : Option Bool :=
  if m.stopRequested then some false
  else if signalled then some true
  else durationPassed options m.started now

def statusDue (options : CliOptions) (now : ℤ) (m : Monitor) : Bool :=
  !options.quiet && decide (m.nextStatus ≤ now)

def nextStatus (options : CliOptions) (now : ℤ) (m : Monitor) : Option ℤ :=
  if statusDue options now m then statusTime options now else some m.nextStatus

/-- One turn, for the state and the status message of a snapshot. -/
def turn (options : CliOptions) (state : GeneratorState) (statusMessage : Bytes)
    (signalled : Bool) (now : ℤ) (m : Monitor) : Option Turn :=
  if state = .failed then some (.leave 1)
  else if state = .stopped ∧ m.stopRequested = true then some (.leave 0)
  else if statusMessage ≠ [] ∧ state = .stopped then some (.leave 0)
  else do
    let stop ← stopDue options signalled now m
    let nextStatus ← nextStatus options now m
    return .again
      { m with
        nextStatus := nextStatus
        stopRequested := m.stopRequested || stop } stop (statusDue options now m)

/-- `send`, whose duration check may overflow. -/
def checkedSend (t : FileTransport) (d : Directory) (payload : Bytes) (io : SendIo) :
    Option (Except Failure SendResult × FileTransport × Directory) :=
  if t.timestamp = [] ∨ payload = [] then some (t.send d payload io)
  else (limitPassed 1000000 t.maxDuration t.startedAt io.now).map fun _ => t.send d payload io

theorem send_durationLimit {t : FileTransport} {d : Directory} {payload : Bytes} {io : SendIo}
    (htimestamp : t.timestamp ≠ []) (hpayload : payload ≠ []) :
    (t.send d payload io).1 = .ok .durationLimitReached ↔
      0 < t.maxDuration ∧ t.maxDuration * 1000000 ≤ io.now - t.startedAt := by
  rw [FileTransport.send, if_neg htimestamp, if_neg hpayload, FileTransport.limitReached]
  split_ifs with hlimit
  · simp [hlimit]
  · simp [hlimit]
  · simp [hlimit]
  · rw [iff_false_right hlimit]
    dsimp only
    split
    · simp
    · simp

theorem limitPassed_eq_some {unit limit started now : ℤ} (helapsed : Fits (now - started))
    {passed : Bool} : limitPassed unit limit started now = some passed ↔
      (0 < limit → Fits (limit * unit)) ∧
        passed = decide (0 < limit ∧ limit * unit ≤ now - started) := by
  unfold limitPassed
  rw [checked_of_fits helapsed]
  split_ifs with hlimit
  · simp only [Option.bind_eq_bind, Option.bind_some, Option.bind_eq_some_iff,
      checked_eq_some_iff, Option.pure_def, Option.some.injEq, hlimit, true_and, forall_const]
    constructor
    · rintro ⟨_, ⟨hfits, rfl⟩, rfl⟩
      exact ⟨hfits, rfl⟩
    · rintro ⟨hfits, rfl⟩
      exact ⟨_, ⟨hfits, rfl⟩, rfl⟩
  · simp only [hlimit, false_and, decide_false, Option.some.injEq, IsEmpty.forall_iff, true_and]
    exact eq_comm

theorem statusTime_eq_some {options : CliOptions} {now next : ℤ} :
    statusTime options now = some next ↔ Fits (options.statusInterval * 1000000) ∧
      Fits (now + options.statusInterval * 1000000) ∧
        next = now + options.statusInterval * 1000000 := by
  unfold statusTime
  simp only [Option.bind_eq_bind, Option.bind_eq_some_iff, checked_eq_some_iff]
  constructor
  · rintro ⟨_, ⟨hinterval, rfl⟩, hsum, rfl⟩
    exact ⟨hinterval, hsum, rfl⟩
  · rintro ⟨hinterval, hsum, rfl⟩
    exact ⟨_, ⟨hinterval, rfl⟩, hsum, rfl⟩

theorem checkedSend_eq_some {t : FileTransport} {d : Directory} {payload : Bytes} {io : SendIo}
    (htimestamp : t.timestamp ≠ []) (hpayload : payload ≠ [])
    (helapsed : Fits (io.now - t.startedAt))
    {answer : Except Failure SendResult × FileTransport × Directory} :
    checkedSend t d payload io = some answer ↔
      (0 < t.maxDuration → Fits (t.maxDuration * 1000000)) ∧ t.send d payload io = answer := by
  rw [checkedSend, if_neg (by simp [htimestamp, hpayload]), Option.map_eq_some_iff]
  simp only [limitPassed_eq_some helapsed]
  constructor
  · rintro ⟨_, ⟨hfits, -⟩, hsend⟩
    exact ⟨hfits, hsend⟩
  · rintro ⟨hfits, hsend⟩
    exact ⟨_, ⟨hfits, rfl⟩, hsend⟩

/-- The requested seconds are up; no request and a request of zero seconds set no limit. -/
def Passed (requested : Option ℕ) (elapsed : ℤ) : Prop :=
  ∃ seconds, requested = some seconds ∧ 0 < seconds ∧ (seconds : ℤ) * 1000000000 ≤ elapsed

theorem passed_iff {requested : Option ℕ} {elapsed : ℤ} : Passed requested elapsed ↔
    0 < requested.getD 0 ∧ ((requested.getD 0 : ℕ) : ℤ) * 1000000000 ≤ elapsed := by
  cases requested with
  | none => simp [Passed]
  | some seconds => simp [Passed]

instance (requested : Option ℕ) (elapsed : ℤ) : Decidable (Passed requested elapsed) :=
  decidable_of_iff _ passed_iff.symm

/-- The limits of accepted arguments act as written between two readings of the clock. -/
structure LimitsAct (arguments : List Bytes) (options : CliOptions) (started now : ℤ) : Prop where
  stop : ∃ passed, durationPassed options started now = some passed ∧
    (passed = true ↔ Passed (requestedDuration arguments) (now - started))
  status : statusTime options now =
    some (now + ((requestedStatusInterval arguments).getD 1 : ℕ) * 1000000000)
  file : ∀ (t : FileTransport) (d : Directory) (payload : Bytes) (io : SendIo),
    t.timestamp ≠ [] → t.maxDuration = options.config.endpoint.fileMaxDuration →
    t.startedAt = started → io.now = now → payload ≠ [] →
    ∃ answer, checkedSend t d payload io = some answer ∧
      (answer.1 = .ok .durationLimitReached ↔
        Passed (requestedFileMaxDuration arguments) (now - started))

/-- The requested seconds, in nanoseconds, fit the clock, and so does the next status time. -/
structure LimitsFit (arguments : List Bytes) (now : ℤ) : Prop where
  duration : Fits (((requestedDuration arguments).getD 0 : ℕ) * 1000000000)
  interval : Fits (((requestedStatusInterval arguments).getD 1 : ℕ) * 1000000000)
  status : Fits (now + ((requestedStatusInterval arguments).getD 1 : ℕ) * 1000000000)
  fileDuration : Fits (((requestedFileMaxDuration arguments).getD 0 : ℕ) * 1000000000)

/-- Below 292 years, of which `std::chrono::years` has 31556952 seconds each. -/
def Elapsed (started now : ℤ) : Prop :=
  started ≤ now ∧ now - started < 292 * 31556952 * 1000000000

theorem Elapsed.fits {started now : ℤ} (h : Elapsed started now) : Fits (now - started) := by
  obtain ⟨hle, hlt⟩ := h
  unfold Fits
  omega

section

variable {arguments : List Bytes} {options : CliOptions} {started now : ℤ}

theorem fits_natCast {n : ℕ} : (0 < (n : ℤ) → Fits (n * 1000000000)) ↔ Fits (n * 1000000000) := by
  constructor
  · intro h
    by_cases hn : 0 < (n : ℤ)
    · exact h hn
    · unfold Fits
      omega
  · exact fun h _ => h

theorem stop_iff (h : AcceptedTimes arguments options) (helapsed : Elapsed started now) :
    (∃ passed, durationPassed options started now = some passed ∧
      (passed = true ↔ Passed (requestedDuration arguments) (now - started))) ↔
    Fits (((requestedDuration arguments).getD 0 : ℕ) * 1000000000) := by
  simp only [durationPassed, limitPassed_eq_some helapsed.fits, h.duration, passed_iff,
    fits_natCast]
  constructor
  · rintro ⟨passed, ⟨hfits, -⟩, -⟩
    exact hfits
  · intro hfits
    refine ⟨_, ⟨hfits, rfl⟩, ?_⟩
    rw [decide_eq_true_eq, Int.natCast_pos]

theorem status_iff (h : AcceptedTimes arguments options) :
    statusTime options now =
      some (now + ((requestedStatusInterval arguments).getD 1 : ℕ) * 1000000000) ↔
    Fits (((requestedStatusInterval arguments).getD 1 : ℕ) * 1000000000) ∧
      Fits (now + ((requestedStatusInterval arguments).getD 1 : ℕ) * 1000000000) := by
  have hunit : options.statusInterval * 1000000 =
      ((requestedStatusInterval arguments).getD 1 : ℕ) * 1000000000 := by
    rw [h.statusInterval]
    ring
  rw [statusTime_eq_some, hunit]
  simp

theorem file_iff (h : AcceptedTimes arguments options) (helapsed : Elapsed started now) :
    (∀ (t : FileTransport) (d : Directory) (payload : Bytes) (io : SendIo),
      t.timestamp ≠ [] → t.maxDuration = options.config.endpoint.fileMaxDuration →
      t.startedAt = started → io.now = now → payload ≠ [] →
      ∃ answer, checkedSend t d payload io = some answer ∧
        (answer.1 = .ok .durationLimitReached ↔
          Passed (requestedFileMaxDuration arguments) (now - started))) ↔
    Fits (((requestedFileMaxDuration arguments).getD 0 : ℕ) * 1000000000) := by
  have hlimit : options.config.endpoint.fileMaxDuration * 1000000 =
      ((requestedFileMaxDuration arguments).getD 0 : ℕ) * 1000000000 := by
    rw [h.fileMaxDuration]
    ring
  have hpositive : 0 < options.config.endpoint.fileMaxDuration ↔
      0 < (((requestedFileMaxDuration arguments).getD 0 : ℕ) : ℤ) := by
    rw [h.fileMaxDuration]
    omega
  rw [← fits_natCast]
  constructor
  · intro hact
    let t : FileTransport :=
      { timestamp := [48]
        maxDuration := options.config.endpoint.fileMaxDuration
        startedAt := started }
    obtain ⟨answer, hsend, -⟩ := hact t ⟨[], List.nodup_nil⟩ [48] ⟨now, fun _ => {}⟩
      (List.cons_ne_nil _ _) rfl rfl rfl (List.cons_ne_nil _ _)
    have hfits := ((checkedSend_eq_some (t := t) (List.cons_ne_nil _ _) (List.cons_ne_nil _ _)
      helapsed.fits).mp hsend).1
    rw [← hpositive, ← hlimit]
    exact hfits
  · intro hfits t d payload io htimestamp hmax hstarted hnow hpayload
    have hspan : Fits (io.now - t.startedAt) := by
      rw [hnow, hstarted]
      exact helapsed.fits
    refine ⟨_, (checkedSend_eq_some htimestamp hpayload hspan).mpr ⟨?_, rfl⟩, ?_⟩
    · rw [hmax, hpositive, hlimit]
      exact hfits
    · rw [send_durationLimit htimestamp hpayload, passed_iff, hmax, hpositive, hlimit, hnow,
        hstarted, Int.natCast_pos]

/-- The limits act as written exactly when their nanoseconds fit the clock. -/
theorem limits_act_iff (h : parseArguments arguments = .ok options)
    (helapsed : Elapsed started now) :
    LimitsAct arguments options started now ↔ LimitsFit arguments now := by
  have haccepted := acceptedTimes h
  constructor
  · rintro ⟨hstop, hstatus, hfile⟩
    obtain ⟨hinterval, hsum⟩ := (status_iff haccepted).mp hstatus
    exact ⟨(stop_iff haccepted helapsed).mp hstop, hinterval, hsum,
      (file_iff haccepted helapsed).mp hfile⟩
  · rintro ⟨hduration, hinterval, hsum, hfile⟩
    exact ⟨(stop_iff haccepted helapsed).mpr hduration, (status_iff haccepted).mpr
      ⟨hinterval, hsum⟩, (file_iff haccepted helapsed).mpr hfile⟩

theorem LimitsAct.startMonitor_eq (h : LimitsAct arguments options started started) :
    startMonitor options started = some
      { started := started
        nextStatus := started +
          ((requestedStatusInterval arguments).getD 1 : ℕ) * 1000000000 } := by
  rw [startMonitor, h.status]
  rfl

theorem LimitsAct.stopDue_eq (h : LimitsAct arguments options started now) {m : Monitor}
    (hm : m.started = started) (signalled : Bool) : stopDue options signalled now m =
      some (!m.stopRequested &&
        (signalled || decide (Passed (requestedDuration arguments) (now - started)))) := by
  obtain ⟨passed, hpassed, hiff⟩ := h.stop
  have hdecide : passed = decide (Passed (requestedDuration arguments) (now - started)) := by
    rw [Bool.eq_iff_iff, hiff, decide_eq_true_eq]
  rw [stopDue, hm, hpassed, hdecide]
  cases m.stopRequested with
  | true => rfl
  | false =>
    cases signalled with
    | true => rfl
    | false => rfl

theorem LimitsAct.nextStatus_eq (h : LimitsAct arguments options started now) (m : Monitor) :
    nextStatus options now m = some (if statusDue options now m then
      now + ((requestedStatusInterval arguments).getD 1 : ℕ) * 1000000000 else m.nextStatus) := by
  unfold nextStatus
  split_ifs
  · exact h.status
  · rfl

/-- Then a turn that does not leave the loop asks for the stop exactly at the limit, or for a
signal, and sets the next status time after the status printed. -/
theorem LimitsAct.turn_eq (h : LimitsAct arguments options started now) {m : Monitor}
    (hm : m.started = started) {state : GeneratorState} (hstate : state ≠ .failed)
    {statusMessage : Bytes} (hmessage : state = .stopped → statusMessage = [])
    (hstopped : state = .stopped → m.stopRequested = false) (signalled : Bool) :
    let stop := !m.stopRequested &&
      (signalled || decide (Passed (requestedDuration arguments) (now - started)))
    turn options state statusMessage signalled now m = some (.again
      { started := m.started
        nextStatus :=
          if statusDue options now m then
            now + ((requestedStatusInterval arguments).getD 1 : ℕ) * 1000000000
          else m.nextStatus
        stopRequested := m.stopRequested || stop } stop (statusDue options now m)) := by
  have hleave : ¬ (state = .stopped ∧ m.stopRequested = true) := by
    rintro ⟨hstop, htrue⟩
    rw [hstopped hstop] at htrue
    cases htrue
  have hcomplete : ¬ (statusMessage ≠ [] ∧ state = .stopped) := fun hboth =>
    hboth.1 (hmessage hboth.2)
  rw [turn, if_neg hstate, if_neg hleave, if_neg hcomplete, h.stopDue_eq hm, h.nextStatus_eq]
  rfl

end

def durationArguments (option seconds : String) : List Bytes :=
  [bytes "run", bytes "--all", bytes option, bytes seconds]

/-- A run of a minute, at its end. -/
theorem limits_act_iff_minute : ∃ options,
    parseArguments (durationArguments "--duration" "60") = .ok options ∧
      LimitsAct (durationArguments "--duration" "60") options 0 60000000000 := by
  obtain ⟨options, hoptions⟩ := exists_accepted (show
    (parseArguments (durationArguments "--duration" "60")).toOption.isSome = true by
      decide)
  refine ⟨options, hoptions, (limits_act_iff hoptions ⟨by decide, by decide⟩).mpr ?_⟩
  have hduration : requestedDuration (durationArguments "--duration" "60") = some 60 := by
    decide
  have hinterval : requestedStatusInterval (durationArguments "--duration" "60") = none := by
    decide
  have hfile : requestedFileMaxDuration (durationArguments "--duration" "60") = none := by
    decide
  constructor
  · rw [hduration]
    decide
  · rw [hinterval]
    decide
  · rw [hinterval]
    decide
  · rw [hfile]
    decide

/-- A duration of 292 years and a half is accepted, and overflows the clock. -/
theorem accepted_duration_overflows : ∃ options,
    parseArguments (durationArguments "--duration" "9223372037") = .ok options ∧
      ¬ LimitsAct (durationArguments "--duration" "9223372037") options 0 0 := by
  obtain ⟨options, hoptions⟩ := exists_accepted (show
    (parseArguments (durationArguments "--duration" "9223372037")).toOption.isSome = true by
      decide)
  refine ⟨options, hoptions, fun h => ?_⟩
  have hfits := (stop_iff (acceptedTimes hoptions) ⟨le_rfl, by decide⟩).mp h.stop
  have hduration : requestedDuration (durationArguments "--duration" "9223372037") =
      some 9223372037 := by decide
  rw [hduration] at hfits
  exact absurd hfits (by decide)

end Presentation
end LogGenerator
