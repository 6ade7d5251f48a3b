import LogGenerator.Application.RatePacer
import LogGenerator.Application.Shutdown
import LogGenerator.Application.Totals

/-!
# The service from one start to the next

One thread calls `start` and `stop`, as both front ends do, and any thread may call
`request_stop`. A run is begun only when every thread of the one before has ended.
Folded: a `request_stop` call that finds no supervisor does nothing, and `start` fills
the members under the lock in one step.
-/

namespace LogGenerator
namespace Application

open Domain

/-- One run, and how far it has come. -/
structure Session (Handle World Event : Type) where
  setup : Setup Handle World Event
  state : setup.State

/-- Where the call of `stop` or `start` is: at the lock, inside it, at the join, at the checks of
`start`, or about to begin the run. -/
inductive OwnerPc where
  | outside
  | lock (next : Option GeneratorConfig)
  | locked (next : Option GeneratorConfig)
  | join (next : Option GeneratorConfig)
  | check (next : Option GeneratorConfig)
  | launch (config : GeneratorConfig) (workerCount : ℕ)

/-- `joinable` is that of `supervisor_`. -/
structure ServiceObject (Handle World Event : Type) where
  session : Session Handle World Event
  joinable : Bool := false
  owner : OwnerPc := .outside

/-- `payload i k` is what worker `i` of the run renders `k`-th; creating the supervisor thread may
throw. -/
inductive ServiceAction (Event : Type) where
  | call (next : Option GeneratorConfig)
  | owner
  | launch (payload : ℕ → ℕ → Bytes) (created : Bool)
  | requestStop
  | supervisor (fault : Option Failure)
  | worker (i : ℕ) (event : Event) (fault : Option Failure)

/-- What the constructor of the service is given, and the world at that time. -/
structure Platform (Handle World Event : Type) where
  optimalWorkerCount : TransportProtocol → ℕ
  create : TransportProtocol → Transport Handle World Event
  world : World

variable {Handle World Event : Type}

namespace Session

/-- A step of one of the threads of the run. -/
def step (r : Session Handle World Event) (a : Action Event r.setup.workerCount) :
    Option (Session Handle World Event) :=
  (r.setup.machine.step r.state a).map (Session.mk r.setup)

def supervisor (r : Session Handle World Event) : SupervisorPc := r.state.supervisor

def shared (r : Session Handle World Event) : Shared World := r.state.shared

def setShared (r : Session Handle World Event) (sh : Shared World) : Session Handle World Event :=
  ⟨r.setup, { r.state with shared := sh }⟩

end Session

namespace Platform

variable (P : Platform Handle World Event)

def setup (config : GeneratorConfig) (workerCount : ℕ) (payload : ℕ → ℕ → Bytes) (world : World) :
    Setup Handle World Event where
  endpoint := config.endpoint
  targetEps := config.targetEps
  workerCount := workerCount
  transport := P.create config.endpoint.protocol
  payload := fun i k => payload i k
  world := world

/-- Before the first start: no threads, and the initial values of the members. -/
def idle : Session Handle World Event where
  setup := P.setup {} 0 (fun _ _ => []) P.world
  state :=
    { shared :=
        { state := .stopped
          world := P.world }
      supervisor := .returned }

/-- What an owner's call does next; `none` when it waits for the lock or the supervisor. -/
def ownerStep (s : ServiceObject Handle World Event) : Option (ServiceObject Handle World Event) :=
  match s.owner with
  | .outside => none
  | .lock next =>
    if s.session.shared.client = .idle then
      if s.joinable then
        some { s with
          session := s.session.setShared (clientStep s.session.shared)
          owner := .locked next }
      else
        some { s with
          session := s.session.setShared { s.session.shared with state := .stopped }
          owner := .check next }
    else none
  | .locked next =>
    let sh := clientStep s.session.shared
    let moved := sh.client = .idle
    some
      { session := s.session.setShared sh
        joinable := s.joinable && !moved
        owner := if moved then .join next else .locked next }
  | .join next =>
    if s.session.supervisor = .returned then
      some { s with
        session := s.session.setShared { s.session.shared with state := .stopped }
        owner := .check next }
    else none
  | .check none => some { s with owner := .outside }
  | .check (some config) =>
    match start P.optimalWorkerCount config with
    | .error _ => some { s with owner := .outside }
    | .ok (config, workerCount) => some { s with owner := .launch config workerCount }
  | .launch _ _ => none

/-- The members are set and the supervisor is created; without it there is no run. -/
def launch (s : ServiceObject Handle World Event) (payload : ℕ → ℕ → Bytes) (created : Bool) :
    Option (ServiceObject Handle World Event) :=
  match s.owner with
  | .launch config workerCount =>
    let S := P.setup config workerCount payload s.session.shared.world
    some
      { session := ⟨S, { S.initial with supervisor := if created then .prepare else .returned }⟩
        joinable := created }
  | _ => none

/-- The threads of the run are those that `supervisor_` or the joining call waits for. A
`request_stop` call gets the lock when no other call holds it, and finds nothing to do once
`supervisor_` is not joinable. -/
def step (s : ServiceObject Handle World Event) : ServiceAction Event →
    Option (ServiceObject Handle World Event)
  | .call next =>
    match s.owner with
    | .outside => some { s with owner := .lock next }
    | _ => none
  | .owner => P.ownerStep s
  | .launch payload created => P.launch s payload created
  | .requestStop =>
    match s.owner with
    | .locked _ => none
    | _ => if s.joinable then (s.session.step .requestStop).map fun r => { s with session := r }
      else some s
  | .supervisor fault =>
    (s.session.step (.supervisor fault)).map fun r => { s with session := r }
  | .worker i event fault =>
    if h : i < s.session.setup.workerCount then
      (s.session.step (.worker ⟨i, h⟩ event fault)).map fun r => { s with session := r }
    else none

def machine : Machine (ServiceObject Handle World Event) (ServiceAction Event) where
  initial := { session := P.idle }
  step := P.step

end Platform

namespace Setup

variable {S : Setup Handle World Event} {i : Fin S.workerCount} {sh sh' : Shared World}
  {w w' : Worker Handle} {event : Event} {fault : Option Failure} {s t : S.State}

theorem workerStep_stopRequested (h : S.workerStep i sh w event fault = some (sh', w'))
    (hsh : sh.stopRequested = true) : sh'.stopRequested = true := by
  cases moves_of_workerStep h with
  | publish hpublishes =>
    generalize w.pc = before at hpublishes
    cases hpublishes with
    | completionStop | errorStop => rfl
    | setStatus | completionStore | countError | setError | storeFailed => exact hsh
  | lead | connect | refuse | announce | start | render | reject | sent | complete | fail
  | flushMessages | flushDatagrams | flushBytes => exact hsh

theorem supervisorStep_shared (h : S.supervisorStep s fault = some t) :
    t.shared.client = s.shared.client ∧
      (s.shared.stopRequested = true → t.shared.stopRequested = true) := by
  cases moves_of_supervisorStep h with
  | store hstores =>
    generalize s.supervisor = before at hstores
    cases hstores with
    | errorStop => exact ⟨rfl, fun _ => rfl⟩
    | earlyStopped | stopped | setError | storeFailed => exact ⟨rfl, fun hstop => hstop⟩
  | lead | spawn | tell => exact ⟨rfl, fun hstop => hstop⟩

/-- A thread of the run neither takes the lock for good nor withdraws the stop. -/
theorem threadStep_shared {a : Action Event S.workerCount} (ha : a ≠ .requestStop)
    (h : S.machine.step s a = some t) :
    t.shared.client = s.shared.client ∧
      (s.shared.stopRequested = true → t.shared.stopRequested = true) := by
  cases a with
  | requestStop => exact absurd rfl ha
  | supervisor fault => exact supervisorStep_shared h
  | worker i event fault =>
    obtain ⟨⟨sh', w'⟩, hr, rfl⟩ := Option.map_eq_some_iff.mp h
    exact ⟨(workerStep_state hr).1, workerStep_stopRequested hr⟩

end Setup

/-- The call that has requested the stop leaves the lock. -/
theorem clientStep_idle {sh : Shared World} (h : (clientStep sh).client = .idle) :
    (clientStep sh).stopRequested = true := by
  cases hclient : sh.client
  all_goals simp only [clientStep, hclient] at h ⊢
  case idle | storeStopping => cases h
  case loadState => split_ifs at h

namespace Session

/-- No thread runs, and the counters are exact. -/
structure Ended (r : Session Handle World Event) : Prop where
  supervisor : r.supervisor = .returned
  workers : ∀ i, (r.state.workers i).pc.Quiet
  totals : r.shared.totals = (r.setup.carried r.shared.accepted).wrapped
  sendErrors : r.shared.sendErrors =
    (Finset.univ.filter (r.setup.EndedByException r.state)).card

variable {r : Session Handle World Event}

theorem ended_of_reachable (h : r.setup.machine.Reachable r.state)
    (hreturned : r.supervisor = .returned) : r.Ended := by
  have hconserved := Setup.conserved_of_reachable h
  have hquiet : ∀ i, (r.state.workers i).pc.Quiet := by
    intro i
    apply Setup.settled_of_reachable h i
    rw [show r.state.supervisor = .returned from hreturned]
    trivial
  have hjoined : r.state.supervisor.Joined := by
    rw [show r.state.supervisor = .returned from hreturned]
    trivial
  refine ⟨hreturned, hquiet, Setup.totals_of_joined h hjoined, ?_⟩
  · rw [Finset.card_filter]
    exact hconserved.sendErrors.trans
      (Finset.sum_congr rfl fun i _ => Setup.faults_of_quiet (hquiet i))

/-- Before anything has been sent. -/
theorem ended_unstarted {S : Setup Handle World Event} {sh : Shared World}
    (htotals : sh.totals = 0) (herrors : sh.sendErrors = 0) (haccepted : sh.accepted = []) :
    Ended (⟨S, { shared := sh, supervisor := .returned }⟩ : Session Handle World Event) := by
  refine ⟨rfl, fun i => .inl rfl, ?_, ?_⟩
  · unfold shared
    dsimp only
    rw [htotals, haccepted]
    rfl
  · have hnone : Finset.univ.filter (S.EndedByException { shared := sh, supervisor := .returned }) =
        ∅ := by
      apply Finset.filter_eq_empty_iff.mpr
      intro i _ hi
      cases hi
    unfold shared
    dsimp only
    rw [hnone, herrors]
    rfl

theorem Ended.stopped (h : r.Ended) :
    (r.setShared { r.shared with state := .stopped }).Ended :=
  ⟨h.supervisor, h.workers, h.totals, h.sendErrors⟩

/-- No thread of an ended run takes a step. -/
theorem Ended.step_eq_none (h : r.Ended) {a : Action Event r.setup.workerCount}
    (ha : a ≠ .requestStop) : r.step a = none := by
  unfold step
  rw [Option.map_eq_none_iff]
  cases a with
  | requestStop => exact absurd rfl ha
  | supervisor fault =>
    have hreturned : r.state.supervisor = .returned := h.supervisor
    simp only [Setup.machine, Setup.step, Setup.supervisorStep, hreturned]
  | worker i event fault =>
    apply Option.map_eq_none_iff.mpr
    apply Option.eq_none_iff_forall_ne_some.mpr
    intro found hfound
    exact Setup.workerStep_not_quiet hfound (h.workers i)

end Session

/-- Some thread of a run may still be going: it is joinable, or somebody waits for it. -/
def ServiceObject.Alive (s : ServiceObject Handle World Event) : Prop :=
  s.joinable = true ∨ ∃ next, s.owner = .join next

namespace Platform

variable {P : Platform Handle World Event} {s t : ServiceObject Handle World Event}

variable (P) in
/-- What `start` makes of some configuration it accepts. -/
def Accepts (config : GeneratorConfig) (workerCount : ℕ) : Prop :=
  ∃ requested, start P.optimalWorkerCount requested = .ok (config, workerCount)

variable (P) in
/-- The run of an accepted configuration, at some point of its course from the beginning. -/
def Runs (r : Session Handle World Event) : Prop :=
  (∃ config workerCount payload world, P.Accepts config workerCount ∧
    r.setup = P.setup config workerCount payload world) ∧
  r.setup.machine.Reachable r.state

variable (P) in
/-- What holds at each place of the owner's call. -/
def At (s : ServiceObject Handle World Event) : Prop :=
  match s.owner with
  | .outside | .lock _ => True
  | .locked _ => s.joinable = true
  | .join _ => s.joinable = false ∧ s.session.shared.stopRequested = true
  | .check _ => s.joinable = false ∧ s.session.shared.state = .stopped
  | .launch config workerCount =>
    s.joinable = false ∧ s.session.shared.state = .stopped ∧ P.Accepts config workerCount

variable (P) in
/-- The invariant over all calls. -/
structure Apart (s : ServiceObject Handle World Event) : Prop where
  alive : s.Alive → P.Runs s.session
  ended : ¬ s.Alive → s.session.Ended
  idle : s.joinable = false → s.session.shared.client = .idle
  place : P.At s

theorem apart_initial : P.Apart P.machine.initial where
  alive h := by
    rcases h with h | ⟨next, h⟩
    · cases h
    · cases h
  ended _ := Session.ended_unstarted rfl rfl rfl
  idle _ := rfl
  place := trivial

/-- Nothing is left to wait for. -/
theorem Apart.of_ended {s : ServiceObject Handle World Event} (hjoinable : s.joinable = false)
    (howner : ∀ next, s.owner ≠ .join next) (hended : s.session.Ended)
    (hidle : s.session.shared.client = .idle) (hplace : P.At s) : P.Apart s := by
  refine ⟨?_, fun _ => hended, fun _ => hidle, hplace⟩
  rintro (h | ⟨next, h⟩)
  · rw [hjoinable] at h
    cases h
  · exact absurd h (howner next)

/-- A step of the run on which nobody holds the lock for good. -/
theorem Runs.step {r r' : Session Handle World Event} {a : Action Event r.setup.workerCount}
    (hr : P.Runs r) (h : r.step a = some r') : P.Runs r' := by
  obtain ⟨u, hu, rfl⟩ := Option.map_eq_some_iff.mp h
  exact ⟨hr.1, hr.2.tail a trivial hu⟩

theorem Runs.clientStep {r : Session Handle World Event} (hr : P.Runs r) :
    P.Runs (r.setShared (clientStep r.shared)) :=
  hr.step (a := .requestStop) rfl

theorem not_alive (hjoinable : s.joinable = false) (howner : ∀ next, s.owner ≠ .join next) :
    ¬ s.Alive := by
  rintro (h | ⟨next, h⟩)
  · rw [hjoinable] at h
    cases h
  · exact howner next h

theorem Apart.ownerStep (hs : P.Apart s) (h : P.ownerStep s = some t) : P.Apart t := by
  obtain ⟨halive, hended, hidle, hplace⟩ := hs
  cases howner : s.owner
  all_goals simp only [Platform.ownerStep, howner] at h
  all_goals simp only [At, howner] at hplace
  case outside | launch => cases h
  case lock next =>
    split_ifs at h with hclient hjoinable
    · -- the lock is taken
      cases h
      refine ⟨fun _ => (halive (.inl hjoinable)).clientStep, fun hnot => absurd (.inl hjoinable) hnot,
        ?_, hjoinable⟩
      intro hfalse
      rw [show s.joinable = false from hfalse] at hjoinable
      cases hjoinable
    · -- there is no supervisor
      cases h
      have hfalse : s.joinable = false := (Bool.not_eq_true _).mp hjoinable
      have hdead := not_alive hfalse fun _ => by simp [howner]
      exact .of_ended hfalse (fun _ => by simp) (hended hdead).stopped hclient ⟨hfalse, rfl⟩
  case locked next =>
    cases h
    have hruns := (halive (.inl hplace)).clientStep
    by_cases hmoved : (clientStep s.session.shared).client = .idle
    · refine ⟨fun _ => hruns, fun hnot => ?_, fun _ => hmoved, ?_⟩
      · exact absurd (.inr ⟨next, by simp [hmoved]⟩) hnot
      · simp only [At, hmoved, ↓reduceIte]
        exact ⟨by simp, clientStep_idle hmoved⟩
    · refine ⟨fun _ => hruns, fun hnot => ?_, fun hfalse => ?_, ?_⟩
      · exact absurd (.inl (by simp [hplace, hmoved])) hnot
      · simp [hplace, hmoved] at hfalse
      · simp [At, hmoved, hplace]
  case join next =>
    split_ifs at h with hreturned
    cases h
    have hruns := halive (.inr ⟨next, howner⟩)
    have hended' := Session.ended_of_reachable hruns.2 hreturned
    exact .of_ended hplace.1 (fun _ => by simp) hended'.stopped (hidle hplace.1) ⟨hplace.1, rfl⟩
  case check next =>
    have hdead := hended (not_alive hplace.1 fun _ => by simp [howner])
    cases next with
    | none =>
      cases h
      exact .of_ended hplace.1 (fun _ => by simp) hdead (hidle hplace.1) trivial
    | some requested =>
      simp only at h
      cases hstart : start P.optimalWorkerCount requested with
      | error message =>
        simp only [hstart] at h
        cases h
        exact .of_ended hplace.1 (fun _ => by simp) hdead (hidle hplace.1) trivial
      | ok accepted =>
        simp only [hstart] at h
        cases h
        exact .of_ended hplace.1 (fun _ => by simp) hdead (hidle hplace.1)
          ⟨hplace.1, hplace.2, requested, hstart⟩

theorem Apart.launch (hs : P.Apart s) {payload : ℕ → ℕ → Bytes} {created : Bool}
    (h : P.launch s payload created = some t) : P.Apart t := by
  cases howner : s.owner
  all_goals simp only [Platform.launch, howner] at h
  case launch config workerCount =>
    cases h
    have hplace := hs.place
    simp only [At, howner] at hplace
    cases created with
    | true =>
      refine ⟨fun _ => ⟨⟨_, _, _, _, hplace.2.2, rfl⟩, .refl _⟩, fun hnot => absurd (.inl rfl) hnot,
        fun _ => rfl, trivial⟩
    | false => exact .of_ended rfl (fun _ => by simp) (Session.ended_unstarted rfl rfl rfl) rfl trivial
  all_goals cases h

/-- A thread of the run takes a step. -/
theorem Apart.thread (hs : P.Apart s) {a : Action Event s.session.setup.workerCount}
    {r : Session Handle World Event} (ha : a ≠ .requestStop) (h : s.session.step a = some r) :
    P.Apart { s with session := r } := by
  have halive : s.Alive := by
    by_contra hdead
    rw [(hs.ended hdead).step_eq_none ha] at h
    cases h
  have hruns := (hs.alive halive).step h
  obtain ⟨u, hu, rfl⟩ := Option.map_eq_some_iff.mp h
  obtain ⟨hclient, hstop⟩ := Setup.threadStep_shared ha hu
  refine ⟨fun _ => hruns, fun hnot => absurd halive hnot, ?_, ?_⟩
  · intro hjoinable
    exact hclient.trans (hs.idle hjoinable)
  · have hplace := hs.place
    cases howner : s.owner
    all_goals simp only [At, howner] at hplace ⊢
    case locked => exact hplace
    case join => exact ⟨hplace.1, hstop hplace.2⟩
    case check | launch => exact absurd halive (not_alive hplace.1 fun _ => by simp [howner])

theorem Apart.step {a : ServiceAction Event} (hs : P.Apart s) (h : P.machine.step s a = some t) :
    P.Apart t := by
  cases a with
  | call next =>
    cases howner : s.owner
    all_goals simp only [machine, Platform.step, howner] at h
    case outside =>
      cases h
      have hsame : (ServiceObject.Alive { s with owner := .lock next }) ↔ s.Alive := by
        simp [ServiceObject.Alive, howner]
      exact ⟨fun halive => hs.alive (hsame.mp halive), fun hdead => hs.ended (mt hsame.mpr hdead),
        hs.idle, trivial⟩
    all_goals cases h
  | owner => exact hs.ownerStep h
  | launch payload created => exact hs.launch h
  | requestStop =>
    by_cases hjoinable : s.joinable = true
    · have hstep : (s.session.step .requestStop).map (fun r => { s with session := r }) =
          some t := by
        cases howner : s.owner
        all_goals simp only [machine, Platform.step, howner, if_pos hjoinable] at h
        case locked => cases h
        all_goals exact h
      obtain ⟨r, hr, rfl⟩ := Option.map_eq_some_iff.mp hstep
      have hruns := (hs.alive (.inl hjoinable)).step hr
      refine ⟨fun _ => hruns, fun hdead => absurd (.inl hjoinable) hdead, fun hfalse => ?_, ?_⟩
      · rw [show s.joinable = false from hfalse] at hjoinable
        cases hjoinable
      · have hplace := hs.place
        cases howner : s.owner
        all_goals simp only [At, howner] at hplace ⊢
        case locked => exact hjoinable
        case join | check | launch =>
          rw [hplace.1] at hjoinable
          cases hjoinable
    · have hsame : s = t := by
        cases howner : s.owner
        all_goals simp only [machine, Platform.step, howner, if_neg hjoinable] at h
        case locked => cases h
        all_goals exact Option.some.inj h
      exact hsame ▸ hs
  | supervisor fault =>
    obtain ⟨r, hr, rfl⟩ := Option.map_eq_some_iff.mp h
    exact hs.thread (by simp) hr
  | worker i event fault =>
    simp only [machine, Platform.step] at h
    split_ifs at h with hi
    obtain ⟨r, hr, rfl⟩ := Option.map_eq_some_iff.mp h
    exact hs.thread (by simp) hr

theorem apart_of_reachable (h : P.machine.Reachable s) : P.Apart s :=
  h.invariant apart_initial fun _ _ _ hs _ hstep => hs.step hstep

variable (P) in
/-- Whatever calls come in whatever order: as long as a thread may be going, the service shows
one run from its beginning, of a configuration that `start` accepted. Otherwise no thread takes a
step, the counters are exactly what the last run came to, and a finished call of `stop` has left
`Stopped`. -/
theorem runs_apart (s : ServiceObject Handle World Event) (h : P.machine.Reachable s) :
    (s.Alive → P.Runs s.session) ∧
    (¬ s.Alive → s.session.Ended ∧
      ∀ a : Action Event s.session.setup.workerCount, a ≠ .requestStop → s.session.step a = none) ∧
    ((∃ next, s.owner = .check next) → ¬ s.Alive ∧ s.session.shared.state = .stopped) := by
  have hs := apart_of_reachable h
  refine ⟨hs.alive, fun hdead => ⟨hs.ended hdead, fun _ => (hs.ended hdead).step_eq_none⟩, ?_⟩
  rintro ⟨next, howner⟩
  have hplace := hs.place
  simp only [At, howner] at hplace
  exact ⟨not_alive hplace.1 fun _ => by simp [howner], hplace.2⟩

/-- A machine with one processor, where everything sent is accepted. -/
def smallPlatform : Platform Unit Unit Unit where
  optimalWorkerCount := fun _ => 1
  create := fun _ => Setup.solitary.transport
  world := ()

def smallConfig : GeneratorConfig := { templates := [{ sample := bytes "a" }] }

/-- A run is started, then `stop` has got as far as the join. -/
def stopping : List (ServiceAction Unit) :=
  [.call (some smallConfig), .owner, .owner, .launch (fun _ _ => []) true, .supervisor none,
    .call none, .owner, .owner, .owner, .owner]

/-- The supervisor finds the stop and returns, and so does the call. -/
def stopped : List (ServiceAction Unit) :=
  stopping ++ [.supervisor none, .supervisor none, .owner]

theorem runs_apart_stopped :
    ∃ s, smallPlatform.machine.exec smallPlatform.machine.initial stopped = some s ∧
      s.session.setup.workerCount = 1 ∧ ¬ s.Alive ∧ s.session.shared.state = .stopped := by
  obtain ⟨s, hrun, hworkers, howner⟩ :
      ∃ s, smallPlatform.machine.exec smallPlatform.machine.initial stopped = some s ∧
        s.session.setup.workerCount = 1 ∧ s.owner = .check none := ⟨_, rfl, rfl, rfl⟩
  have hapart := runs_apart smallPlatform s (Machine.reachable_of_exec hrun)
  exact ⟨s, hrun, hworkers, hapart.2.2 ⟨none, howner⟩⟩

/-- A step of the owner's own call, or one that it is waiting for: at the lock that of the
`request_stop` call inside, at the join those of the supervisor and of the workers that have been
told to stop. -/
def Awaited (s : ServiceObject Handle World Event) : ServiceAction Event → Prop
  | .call _ => False
  | .owner => True
  | .launch _ _ => ∃ config workerCount, s.owner = .launch config workerCount
  | .requestStop => (∃ next, s.owner = .lock next) ∧ s.session.shared.client ≠ .idle
  | .supervisor _ => ∃ next, s.owner = .join next
  | .worker i _ _ => (∃ next, s.owner = .join next) ∧
    ∃ h : i < s.session.setup.workerCount, (s.session.state.workers ⟨i, h⟩).stopToken = true

/-- At the join an urgent step of the run is a step of the service. -/
theorem exists_step_of_urgent {a : Action Event s.session.setup.workerCount}
    {u : s.session.setup.State} (howner : ∃ next, s.owner = .join next)
    (hurgent : Setup.urgent s.session.state a = true)
    (h : s.session.setup.machine.step s.session.state a = some u) :
    ∃ a t, P.machine.step s a = some t ∧ Awaited s a := by
  have hstep : s.session.step a = some ⟨s.session.setup, u⟩ := Option.map_eq_some_iff.mpr ⟨u, h, rfl⟩
  cases a with
  | requestStop => cases hurgent
  | supervisor fault =>
    exact ⟨.supervisor fault, _, Option.map_eq_some_iff.mpr ⟨_, hstep, rfl⟩, howner⟩
  | worker i event fault =>
    refine ⟨.worker i event fault, { s with session := ⟨s.session.setup, u⟩ }, ?_, howner, i.isLt,
      hurgent⟩
    simp only [machine, Platform.step, dif_pos i.isLt, Fin.eta, hstep, Option.map_some]

variable (P) in
/-- No call of `start` or `stop` is ever stuck: not at the lock, and not at the join, where a thread
that has been told to stop or the supervisor can go on. -/
theorem call_goes_on (s : ServiceObject Handle World Event) (h : P.machine.Reachable s)
    (hcall : s.owner ≠ .outside) (event : Event) :
    ∃ a t, P.machine.step s a = some t ∧ Awaited s a := by
  have hs := apart_of_reachable h
  have hown {t : ServiceObject Handle World Event} (hstep : P.ownerStep s = some t) :
      ∃ a t, P.machine.step s a = some t ∧ Awaited s a := ⟨.owner, t, hstep, trivial⟩
  cases howner : s.owner
  case outside => exact absurd howner hcall
  case lock next =>
    by_cases hclient : s.session.shared.client = .idle
    · by_cases hjoinable : s.joinable = true
      · exact hown (by rw [Platform.ownerStep, howner]; exact (if_pos hclient).trans (if_pos hjoinable))
      · exact hown (by rw [Platform.ownerStep, howner]; exact (if_pos hclient).trans (if_neg hjoinable))
    · -- a `request_stop` call holds the lock
      have hjoinable : s.joinable = true := by
        by_contra hfalse
        exact hclient (hs.idle ((Bool.not_eq_true _).mp hfalse))
      have hstep : P.step s .requestStop =
          some { s with session := s.session.setShared (clientStep s.session.shared) } := by
        simp only [Platform.step, howner, if_pos hjoinable]
        rfl
      exact ⟨.requestStop, _, hstep, ⟨next, howner⟩, hclient⟩
  case locked next => exact hown (by rw [Platform.ownerStep, howner])
  case check next =>
    cases next with
    | none => exact hown (by rw [Platform.ownerStep, howner])
    | some requested =>
      have hstep : ∃ t, P.ownerStep s = some t := by
        simp only [Platform.ownerStep, howner]
        cases start P.optimalWorkerCount requested
        all_goals exact ⟨_, rfl⟩
      exact hown hstep.choose_spec
  case launch config workerCount =>
    have hstep : ∃ t, P.launch s (fun _ _ => []) true = some t := by
      simp only [Platform.launch, howner]
      exact ⟨_, rfl⟩
    exact ⟨.launch _ _, _, hstep.choose_spec, config, workerCount, howner⟩
  case join next =>
    by_cases hreturned : s.session.supervisor = .returned
    · exact hown (by rw [Platform.ownerStep, howner]; exact if_pos hreturned)
    · have hplace := hs.place
      simp only [At, howner] at hplace
      have hruns := hs.alive (.inr ⟨next, howner⟩)
      obtain ⟨a, u, hurgent, hstep⟩ := Setup.supervisor_moves_or_waits
        (Setup.joinable_of_reachable hruns.2) hplace.2 hreturned (hs.idle hplace.1) event
      exact exists_step_of_urgent ⟨next, howner⟩ hurgent hstep

theorem call_goes_on_stopping :
    ∃ s, smallPlatform.machine.exec smallPlatform.machine.initial stopping = some s ∧
      ∃ a t, smallPlatform.machine.step s a = some t ∧ Awaited s a := by
  obtain ⟨s, hrun, howner⟩ :
      ∃ s, smallPlatform.machine.exec smallPlatform.machine.initial stopping = some s ∧
        s.owner = .join none := ⟨_, rfl, rfl⟩
  have hcall : s.owner ≠ .outside := by simp [howner]
  exact ⟨s, hrun, call_goes_on smallPlatform s (Machine.reachable_of_exec hrun) hcall ()⟩

end Platform

end Application
end LogGenerator
