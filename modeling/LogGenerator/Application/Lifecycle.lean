import LogGenerator.Application.StressTestService

/-!
# How a run ends

The state word is written by `request_stop`, by the supervisor and by any worker.
A worker that is not settled, that is neither unstarted nor ended, is the only one
that can still write it, and the position of the supervisor bounds which workers
those are.
-/

namespace LogGenerator
namespace Application

open Domain

variable {Handle World Event : Type}

/-- The states `run_generator` waits for. -/
def Terminal (state : GeneratorState) : Prop := state = .stopped ∨ state = .failed

/-- A worker that takes no step: its thread does not run. -/
def WorkerPc.Quiet (pc : WorkerPc) : Prop := pc = .unstarted ∨ ∃ exit, pc = .done exit

/-- The supervisor's position implies that worker `i` is quiet. -/
def SupervisorPc.Settles : SupervisorPc → ℕ → Prop
  | .spawn k, i => k ≤ i
  | .awaitStop, _ | .stopWorkers _, _ | .join, _ => False
  | .unwind k n _, i | .unwindJoin k n _, i => i < k ∨ n ≤ i
  | _, _ => True

/-- The supervisor makes no further access to the state word. -/
def SupervisorPc.Ended (pc : SupervisorPc) : Prop := pc = .errorStop ∨ pc = .returned

theorem SupervisorPc.Ended.settles {pc : SupervisorPc} (h : pc.Ended) (i : ℕ) : pc.Settles i := by
  rcases h with rfl | rfl <;> trivial

/-- The supervisor is at or before a store of `Stopped`. -/
def SupervisorPc.MayStop (pc : SupervisorPc) : Prop :=
  pc = .prepare ∨ pc = .stopTest ∨ pc = .storeEarlyStopped ∨ pc = .storeStopped

theorem SupervisorPc.MayStop.settles {pc : SupervisorPc} (h : pc.MayStop) (i : ℕ) :
    pc.Settles i := by
  rcases h with rfl | rfl | rfl | rfl
  all_goals trivial

namespace Setup

variable (S : Setup Handle World Event)

/-- Every worker the supervisor's position settles is quiet. -/
def Settled (s : S.State) : Prop :=
  ∀ i : Fin S.workerCount, s.supervisor.Settles i → (s.workers i).pc.Quiet

variable {S} {i : Fin S.workerCount} {sh sh' : Shared World} {w w' : Worker Handle}
  {event : Event} {fault : Option Failure} {s t : S.State}

theorem machine_step_worker (h : S.workerStep i s.shared (s.workers i) event fault = some (sh', w')) :
    S.machine.step s (.worker i event fault) =
      some { s with shared := sh', workers := Function.update s.workers i w' } := by
  simp only [machine, step, h, Option.map_some]

theorem workerStep_not_quiet (h : S.workerStep i sh w event fault = some (sh', w')) :
    ¬ w.pc.Quiet := by
  rintro (hpc | ⟨exit, hpc⟩)
  · simp [workerStep, hpc] at h
  · simp [workerStep, hpc] at h

/-- What a worker's step does to the state word, and when it leads to a store there. -/
theorem workerStep_state (h : S.workerStep i sh w event fault = some (sh', w')) :
    sh'.client = sh.client ∧
    (sh'.state = sh.state ∨
      (sh.state = .connecting ∧ sh'.state = .running) ∨
      (w.pc = .completionStore ∧ sh'.state = .stopping) ∨
      sh'.state = .failed) ∧
    (w'.pc = .completionStore → sh.state ≠ .failed) := by
  cases moves_of_workerStep h with
  | lead hleads =>
    refine ⟨rfl, .inl rfl, ?_⟩
    rintro rfl
    generalize w.pc = pc at hleads
    cases hleads with
    | store hstate => exact hstate
  | announce _ hnext =>
    rcases hnext with ⟨rfl, _⟩ | ⟨rfl, _⟩
    · exact ⟨rfl, .inl rfl, by simp⟩
    · exact ⟨rfl, .inl rfl, by simp⟩
  | start _ hstate => exact ⟨rfl, .inr (.inl ⟨hstate, rfl⟩), by simp⟩
  | render _ _ hnext =>
    rcases hnext with ⟨rfl, _⟩ | ⟨rfl, _⟩
    · exact ⟨rfl, .inl rfl, by simp⟩
    · exact ⟨rfl, .inl rfl, by simp⟩
  | sent _ _ _ hnext =>
    rcases hnext with rfl | ⟨rfl, _⟩
    · exact ⟨rfl, .inl rfl, by simp⟩
    · exact ⟨rfl, .inl rfl, by simp⟩
  | @flushBytes next _ =>
    refine ⟨rfl, .inl rfl, ?_⟩
    cases next
    all_goals simp [AfterFlush.place]
  | publish hpublishes =>
    generalize hpc : w.pc = pc at hpublishes
    cases hpublishes with
    | completionStore => exact ⟨rfl, .inr (.inr (.inl ⟨rfl, rfl⟩)), by simp⟩
    | storeFailed => exact ⟨rfl, .inr (.inr (.inr rfl)), by simp⟩
    | setStatus | completionStop | countError | setError | errorStop =>
      exact ⟨rfl, .inl rfl, by simp⟩
  | connect | refuse | reject | complete | fail | flushMessages | flushDatagrams =>
    exact ⟨rfl, .inl rfl, by simp⟩

theorem updateWorker_of_ne {s : S.State} {k : ℕ} {f : Worker Handle → Worker Handle}
    {i : Fin S.workerCount} (h : i.val ≠ k) : (S.updateWorker s k f).workers i = s.workers i :=
  if_neg h

/-- A projection of the workers that `f` respects does not see the update. -/
theorem updateWorker_proj {β : Type*} {k : ℕ} {f : Worker Handle → Worker Handle}
    (proj : Worker Handle → β) (h : ∀ w, proj (f w) = proj w) (i : Fin S.workerCount) :
    proj ((S.updateWorker s k f).workers i) = proj (s.workers i) := by
  by_cases hi : i.val = k
  · simp [updateWorker, hi, h]
  · rw [updateWorker_of_ne hi]

theorem workerDone_quiet {k : ℕ} (h : S.workerDone s k = true) (i : Fin S.workerCount)
    (hi : i.val = k) : (s.workers i).pc.Quiet := by
  rcases of_decide_eq_true h i hi with hpc | hpc
  · exact .inr ⟨_, hpc⟩
  · exact .inr ⟨_, hpc⟩

theorem allDone_quiet (h : S.allDone s = true) (i : Fin S.workerCount) :
    (s.workers i).pc.Quiet := by
  rcases of_decide_eq_true h i with hpc | hpc
  · exact .inr ⟨_, hpc⟩
  · exact .inr ⟨_, hpc⟩

theorem settled_initial : S.Settled S.initial := fun _ _ => .inl rfl

theorem settled_supervisorStep (hs : S.Settled s) (h : S.supervisorStep s fault = some t) :
    S.Settled t := by
  intro i hi
  have hq := hs i
  cases moves_of_supervisorStep h with
  | lead hleads =>
    generalize s.supervisor = before at hleads hq
    cases hleads with
    | unwind =>
      apply hq
      rcases hi with hlt | hle
      · exact absurd hlt (Nat.not_lt_zero _)
      · exact hle
    | joined hdone => exact allDone_quiet hdone i
    | @joinedOne k n _ hdone =>
      by_cases hik : i.val = k
      · exact workerDone_quiet hdone i hik
      · apply hq
        have hor : i.val < k + 1 ∨ n ≤ i.val := hi
        show i.val < k ∨ n ≤ i.val
        omega
    | @unwound k n _ hle =>
      apply hq
      show i.val < k ∨ n ≤ i.val
      omega
    | spawned | stop | told => exact hi.elim
    | refuse | prepared | stopEarly | goOn | finished | keepFailed | settle => exact hq trivial
  | store hstores =>
    generalize s.supervisor = before at hstores hq
    cases hstores
    all_goals exact hq trivial
  | @spawn k hpc _ =>
    have hle : k + 1 ≤ i.val := hi
    have hne : i.val ≠ k := by omega
    dsimp only
    rw [updateWorker_of_ne hne]
    rw [hpc] at hq
    exact hq (show k ≤ i.val by omega)
  | @tell k _ htells =>
    have hpc : ((S.updateWorker s k fun w => { w with stopToken := true }).workers i).pc =
        (s.workers i).pc := updateWorker_proj Worker.pc (by intro w; rfl) i
    dsimp only
    rw [hpc]
    generalize s.supervisor = before at htells hq
    cases htells with
    | stop => exact hi.elim
    | unwind => exact hq hi

/-- Only a worker whose thread runs takes a step. -/
theorem settled_step {a : Action Event S.workerCount} (hs : S.Settled s)
    (h : S.machine.step s a = some t) : S.Settled t := by
  cases a with
  | requestStop =>
    cases h
    exact hs
  | supervisor fault => exact settled_supervisorStep hs h
  | worker i event fault =>
    obtain ⟨r, hr, rfl⟩ := Option.map_eq_some_iff.mp h
    intro j hj
    by_cases hij : j = i
    · subst hij
      exact absurd (hs j hj) (workerStep_not_quiet hr)
    · simpa [Function.update_of_ne hij] using hs j hj

theorem settled_of_reachable (h : S.machine.Reachable s) : S.Settled s :=
  h.invariant settled_initial fun _ _ _ hs _ hstep => settled_step hs hstep

/-- A `request_stop` call is about to store `Stopping` after the supervisor has left
the state word for good. -/
def LateStore (s : S.State) (a : Action Event S.workerCount) : Prop :=
  s.supervisor.Ended ∧ s.shared.client = .storeStopping ∧
    match a with
    | .requestStop => True
    | _ => False

/-- Once the supervisor has left the state word, the state is terminal. -/
def EndsTerminal (s : S.State) : Prop := s.supervisor.Ended → Terminal s.shared.state

theorem supervisorStep_ended (h : S.supervisorStep s fault = some t) (ht : t.supervisor.Ended) :
    Terminal t.shared.state ∨ (s.supervisor.Ended ∧ t.shared.state = s.shared.state) := by
  cases moves_of_supervisorStep h with
  | lead hleads =>
    generalize s.supervisor = before at hleads
    cases hleads with
    | keepFailed hfailed => exact .inl (.inr hfailed)
    | refuse | prepared | stopEarly | goOn | unwind | spawned | stop | told | joined | finished
    | settle | unwound | joinedOne => rcases ht with ht | ht <;> cases ht
  | store hstores =>
    generalize s.supervisor = before at hstores
    cases hstores with
    | earlyStopped | stopped => exact .inl (.inl rfl)
    | storeFailed => exact .inl (.inr rfl)
    | errorStop => exact .inr ⟨.inl rfl, rfl⟩
    | setError => rcases ht with ht | ht <;> cases ht
  | spawn => rcases ht with ht | ht <;> cases ht
  | tell htells =>
    generalize s.supervisor = before at htells
    cases htells
    all_goals rcases ht with ht | ht
    all_goals cases ht

theorem endsTerminal_step {a : Action Event S.workerCount} (hsettled : S.Settled s)
    (hs : S.EndsTerminal s) (hok : ¬ S.LateStore s a) (h : S.machine.step s a = some t) :
    S.EndsTerminal t := by
  intro hended
  cases a with
  | requestStop =>
    cases h
    have hstate := hs hended
    cases hclient : s.shared.client
    case storeStopping => exact absurd ⟨hended, hclient, trivial⟩ hok
    all_goals simpa [clientStep, hclient] using hstate
  | supervisor fault =>
    rcases supervisorStep_ended h hended with hterminal | ⟨hbefore, hstate⟩
    · exact hterminal
    · rw [hstate]
      exact hs hbefore
  | worker i event fault =>
    obtain ⟨r, hr, rfl⟩ := Option.map_eq_some_iff.mp h
    exact absurd (hsettled i (hended.settles i)) (workerStep_not_quiet hr)

/-- After a late store the state word is `Stopping` for ever. -/
def Abandoned (s : S.State) : Prop := s.supervisor.Ended ∧ s.shared.state = .stopping

theorem abandoned_step {a : Action Event S.workerCount} (hsettled : S.Settled s)
    (hs : S.Abandoned s) (h : S.machine.step s a = some t) : S.Abandoned t := by
  obtain ⟨hended, hstate⟩ := hs
  cases a with
  | requestStop =>
    cases h
    refine ⟨hended, ?_⟩
    cases hclient : s.shared.client
    all_goals simp [clientStep, hclient, hstate]
  | supervisor fault =>
    rcases hended with hpc | hpc
    · simp only [machine, step, supervisorStep, hpc] at h
      cases h
      exact ⟨.inr rfl, hstate⟩
    · simp [machine, step, supervisorStep, hpc] at h
  | worker i event fault =>
    obtain ⟨r, hr, rfl⟩ := Option.map_eq_some_iff.mp h
    exact absurd (hsettled i (hended.settles i)) (workerStep_not_quiet hr)

theorem abandoned_of_lateStore {a : Action Event S.workerCount} (hlate : S.LateStore s a)
    (h : S.machine.step s a = some t) : S.Abandoned t := by
  obtain ⟨hended, hclient, hrequest⟩ := hlate
  cases a with
  | requestStop =>
    cases h
    exact ⟨hended, by simp [clientStep, hclient]⟩
  | supervisor fault => cases hrequest
  | worker i event fault => cases hrequest

variable (S) in
/-- As long as no late store happens, a returned supervisor leaves a terminal state;
one late store leaves `Stopping` in every later state. -/
theorem terminalState_stays :
    (∀ s, S.machine.Steps (fun s a => ¬ S.LateStore s a) S.initial s →
      s.supervisor = .returned → Terminal s.shared.state) ∧
    (∀ s a t u, S.machine.Reachable s → S.LateStore s a → S.machine.step s a = some t →
      S.machine.Steps Machine.anyStep t u → u.shared.state = .stopping) := by
  constructor
  · intro s hsteps hreturned
    have hinitial : S.EndsTerminal S.initial := by
      rintro (hpc | hpc)
      · cases hpc
      · cases hpc
    have hends : S.EndsTerminal s :=
      hsteps.invariant_with hinitial settled_initial
        (fun _ _ _ hs _ hstep => settled_step hs hstep)
        (fun _ _ _ hsettled hs hok hstep => endsTerminal_step hsettled hs hok hstep)
    exact hends (.inr hreturned)
  · intro s a t u hs hlate hstep hsteps
    have habandoned : S.Abandoned u :=
      hsteps.invariant_with (abandoned_of_lateStore hlate hstep)
        (settled_step (settled_of_reachable hs) hstep)
        (fun _ _ _ hs _ hstep => settled_step hs hstep)
        (fun _ _ _ hsettled hs _ hstep => abandoned_step hsettled hs hstep)
    exact habandoned.2

/-- One worker whose transport accepts everything. -/
def solitary : Setup Unit Unit Unit where
  endpoint := {}
  targetEps := 0
  workerCount := 1
  transport :=
    { connect := fun _ _ _ => (.ok (), ())
      send := fun _ _ _ _ => (.ok .sent, (), ())
      sendBatch := fun _ _ _ _ => (.ok .sent, (), ())
      isDatagram := true
      preferredBatchSize := 1 }
  payload := fun _ _ => []
  world := ()

/-- Two calls of `request_stop`: the run ends at the first, the second stores late. -/
def lateStop : List (Action Unit 1) :=
  [.supervisor none, .requestStop, .requestStop, .requestStop, .requestStop, .supervisor none,
    .supervisor none, .requestStop, .requestStop, .requestStop]

theorem terminalState_lost :
    ¬ ∀ (Handle World Event : Type) (S : Setup Handle World Event) (s : S.State),
      S.machine.Reachable s → s.supervisor = .returned → Terminal s.shared.state := by
  intro hclaim
  obtain ⟨s, hrun, hreturned, hstate⟩ : ∃ s, solitary.machine.exec solitary.initial lateStop = some s ∧
      s.supervisor = .returned ∧ s.shared.state = .stopping := ⟨_, rfl, rfl, rfl⟩
  rcases hclaim _ _ _ solitary s (Machine.reachable_of_exec hrun) hreturned with h | h
  · rw [hstate] at h
    cases h
  · rw [hstate] at h
    cases h

/-- The worker is started and a call of `request_stop` comes and goes. -/
def stopInTime : List (Action Unit 1) :=
  List.replicate 4 (.supervisor none) ++ List.replicate 4 .requestStop

/-- Then the worker finds the gate shut, and the supervisor joins it. -/
def stoppedRun : List (Action Unit 1) :=
  stopInTime ++ List.replicate 3 (.supervisor none) ++ List.replicate 4 (.worker 0 () none) ++
    List.replicate 4 (.supervisor none)

/-- The calls of `request_stop` find the supervisor waiting for them. -/
def callsInTime (s : S.State) : Action Event S.workerCount → Bool
  | .requestStop => decide (s.supervisor = .awaitStop)
  | .supervisor _ | .worker _ _ _ => true

theorem not_lateStore_of_callsInTime {a : Action Event S.workerCount}
    (h : S.callsInTime s a = true) : ¬ S.LateStore s a := by
  rintro ⟨hended, _, hrequest⟩
  cases a with
  | requestStop =>
    rw [of_decide_eq_true h] at hended
    rcases hended with hpc | hpc
    · cases hpc
    · cases hpc
  | supervisor | worker => exact hrequest

theorem terminalState_stays_stoppedRun :
    ∃ s, solitary.machine.exec solitary.initial stoppedRun = some s ∧ s.supervisor = .returned ∧
      s.shared.state = .stopped ∧ Terminal s.shared.state := by
  obtain ⟨s, hexec, hrun, hreturned, hstate⟩ : ∃ s,
      solitary.machine.exec solitary.initial stoppedRun = some s ∧
      solitary.machine.execWhile solitary.callsInTime solitary.initial stoppedRun = some s ∧
      s.supervisor = .returned ∧ s.shared.state = .stopped := ⟨_, rfl, rfl, rfl, rfl⟩
  have hsteps : solitary.machine.Steps (fun s a => ¬ solitary.LateStore s a) solitary.initial s :=
    .of_execWhile (fun _ _ _ => not_lateStore_of_callsInTime) hrun
  exact ⟨s, hexec, hreturned, hstate, (terminalState_stays solitary).1 s hsteps hreturned⟩

/-- The action is the store of `Failed` in `publish_error`. -/
def StoresFailed (s : S.State) : Action Event S.workerCount → Prop
  | .requestStop => False
  | .supervisor _ => s.supervisor = .storeFailed
  | .worker i _ _ => (s.workers i).pc = .storeFailed

/-- No call is between a load of the state word and the store guarded by it: neither
`request_stop` nor the `publish_completion` of a worker. -/
def Undisturbed (s : S.State) : Prop :=
  s.shared.client ≠ .storeStopping ∧ ∀ i, (s.workers i).pc ≠ .completionStore

/-- A failure nobody is about to overwrite. -/
structure FailureKept (s : S.State) : Prop where
  failed : s.shared.state = .failed
  undisturbed : S.Undisturbed s
  supervisor : ¬ s.supervisor.MayStop

theorem updateWorker_not_completionStore {k : ℕ} {f : Worker Handle → Worker Handle}
    (hf : ∀ w, w.pc ≠ .completionStore → (f w).pc ≠ .completionStore)
    (hs : ∀ i, (s.workers i).pc ≠ .completionStore) (i : Fin S.workerCount) :
    ((S.updateWorker s k f).workers i).pc ≠ .completionStore := by
  by_cases hi : i.val = k
  · simpa [updateWorker, hi] using hf _ (hs i)
  · rw [updateWorker_of_ne hi]
    exact hs i

theorem SupervisorLeads.mayStop {pc pc' : SupervisorPc} (hfailed : s.shared.state = .failed)
    (h : S.SupervisorLeads s fault pc pc') (hpc : ¬ pc.MayStop) : ¬ pc'.MayStop := by
  cases h with
  | settle hstate => exact absurd hfailed hstate
  | refuse | prepared | stopEarly | goOn =>
    exact absurd (by simp [SupervisorPc.MayStop]) hpc
  | unwind | spawned | stop | told | joined | finished | keepFailed | unwound | joinedOne =>
    simp [SupervisorPc.MayStop]

theorem failureKept_supervisorStep (hs : S.FailureKept s)
    (h : S.supervisorStep s fault = some t) : S.FailureKept t := by
  obtain ⟨hfailed, ⟨hclient, hworkers⟩, hsupervisor⟩ := hs
  cases moves_of_supervisorStep h with
  | lead hleads => exact ⟨hfailed, ⟨hclient, hworkers⟩, hleads.mayStop hfailed hsupervisor⟩
  | store hstores =>
    generalize s.supervisor = before at hstores hsupervisor
    cases hstores with
    | earlyStopped | stopped => exact absurd (by simp [SupervisorPc.MayStop]) hsupervisor
    | storeFailed => exact ⟨rfl, ⟨hclient, hworkers⟩, by simp [SupervisorPc.MayStop]⟩
    | setError | errorStop => exact ⟨hfailed, ⟨hclient, hworkers⟩, by simp [SupervisorPc.MayStop]⟩
  | @spawn k _ _ =>
    have hconnect := updateWorker_not_completionStore (k := k)
      (f := fun w => { w with pc := .connect }) (fun _ _ => nofun) hworkers
    exact ⟨hfailed, ⟨hclient, hconnect⟩, by simp [SupervisorPc.MayStop]⟩
  | @tell k _ htells =>
    have hstop := updateWorker_not_completionStore (k := k)
      (f := fun w => { w with stopToken := true }) (fun _ hw => hw) hworkers
    refine ⟨hfailed, ⟨hclient, hstop⟩, ?_⟩
    generalize s.supervisor = before at htells
    cases htells
    all_goals simp [SupervisorPc.MayStop]

theorem failureKept_step {a : Action Event S.workerCount} (hs : S.FailureKept s)
    (h : S.machine.step s a = some t) : S.FailureKept t := by
  obtain ⟨hfailed, ⟨hclient, hworkers⟩, hsupervisor⟩ := hs
  cases a with
  | requestStop =>
    cases h
    cases hpc : s.shared.client
    case storeStopping => exact absurd hpc hclient
    all_goals refine ⟨?_, ⟨?_, hworkers⟩, hsupervisor⟩
    all_goals simp [clientStep, hpc, hfailed]
  | supervisor fault => exact failureKept_supervisorStep ⟨hfailed, ⟨hclient, hworkers⟩, hsupervisor⟩ h
  | worker i event fault =>
    obtain ⟨⟨sh', w'⟩, hr, rfl⟩ := Option.map_eq_some_iff.mp h
    obtain ⟨hclient', hstate, hstore⟩ := workerStep_state hr
    refine ⟨?_, ⟨?_, ?_⟩, hsupervisor⟩
    · rcases hstate with hstate | ⟨hconnecting, _⟩ | ⟨hcompletion, _⟩ | hstate
      · exact hstate.trans hfailed
      · rw [hfailed] at hconnecting
        cases hconnecting
      · exact absurd hcompletion (hworkers i)
      · exact hstate
    · rw [hclient']
      exact hclient
    · intro j
      by_cases hij : j = i
      · subst hij
        intro hj
        simp only [Function.update_self] at hj
        exact hstore hj hfailed
      · simpa [Function.update_of_ne hij] using hworkers j

theorem failureKept_of_storesFailed {a : Action Event S.workerCount} (hsettled : S.Settled s)
    (hfails : S.StoresFailed s a) (hquiet : S.Undisturbed s) (h : S.machine.step s a = some t) :
    S.FailureKept t := by
  obtain ⟨hclient, hworkers⟩ := hquiet
  cases a with
  | requestStop => exact hfails.elim
  | supervisor fault =>
    have hpc : s.supervisor = .storeFailed := hfails
    simp only [machine, step, supervisorStep, hpc] at h
    cases h
    exact ⟨rfl, ⟨hclient, hworkers⟩, by simp [SupervisorPc.MayStop]⟩
  | worker i event fault =>
    have hpc : (s.workers i).pc = .storeFailed := hfails
    simp only [machine, step, workerStep, hpc, Option.map_some] at h
    cases h
    refine ⟨rfl, ⟨hclient, ?_⟩, ?_⟩
    · intro j
      by_cases hij : j = i
      · subst hij
        simp
      · simpa [Function.update_of_ne hij] using hworkers j
    · intro hstop
      rcases hsettled i (hstop.settles i) with hquiet | ⟨exit, hquiet⟩
      · rw [hpc] at hquiet
        cases hquiet
      · rw [hpc] at hquiet
        cases hquiet

/-- A call caught between its load and its store overwrites the failure. -/
theorem overwritten_of_disturbed {a : Action Event S.workerCount} (hsettled : S.Settled s)
    (hfails : S.StoresFailed s a) (hdisturbed : ¬ S.Undisturbed s)
    (h : S.machine.step s a = some t) :
    ∃ u, S.machine.Steps Machine.anyStep t u ∧ u.shared.state = .stopping := by
  by_cases hclient : s.shared.client = .storeStopping
  · have hpending : t.shared.client = .storeStopping := by
      cases a with
      | requestStop => exact hfails.elim
      | supervisor fault =>
        have hpc : s.supervisor = .storeFailed := hfails
        simp only [machine, step, supervisorStep, hpc] at h
        cases h
        exact hclient
      | worker i event fault =>
        obtain ⟨r, hr, rfl⟩ := Option.map_eq_some_iff.mp h
        exact (workerStep_state hr).1.trans hclient
    refine ⟨_, .single .requestStop trivial rfl, ?_⟩
    simp [clientStep, hpending]
  · obtain ⟨j, hj⟩ : ∃ j, (s.workers j).pc = .completionStore := by
      by_contra hnone
      exact hdisturbed ⟨hclient, fun j hj => hnone ⟨j, hj⟩⟩
    cases a with
    | requestStop => exact hfails.elim
    | supervisor fault =>
      have hpc : s.supervisor = .storeFailed := hfails
      have hsettles : s.supervisor.Settles j := by
        rw [hpc]
        trivial
      rcases hsettled j hsettles with hquiet | ⟨exit, hquiet⟩
      · rw [hj] at hquiet
        cases hquiet
      · rw [hj] at hquiet
        cases hquiet
    | worker i event fault =>
      have hpc : (s.workers i).pc = .storeFailed := hfails
      have hij : j ≠ i := by
        rintro rfl
        rw [hj] at hpc
        cases hpc
      obtain ⟨r, hr, rfl⟩ := Option.map_eq_some_iff.mp h
      have hw : (Function.update s.workers i r.2 j).pc = .completionStore := by
        rw [Function.update_of_ne hij]
        exact hj
      have hstep : S.workerStep j r.1 (Function.update s.workers i r.2 j) event none =
          some ({ r.1 with state := .stopping },
            { Function.update s.workers i r.2 j with pc := .completionStop }) := by
        simp only [workerStep, hw]
      exact ⟨_, .single (.worker j event none) trivial (machine_step_worker hstep), rfl⟩

variable (S) in
/-- In a run all of whose failure stores are undisturbed, a stored failure is never
overwritten; and a failure store is safe exactly when it is undisturbed. -/
theorem failure_stays :
    (∀ s a t u, S.machine.Steps (fun s a => S.StoresFailed s a → S.Undisturbed s) S.initial s →
      S.StoresFailed s a → S.Undisturbed s → S.machine.step s a = some t →
      S.machine.Steps Machine.anyStep t u → u.shared.state = .failed) ∧
    (∀ s a t, S.machine.Reachable s → S.StoresFailed s a → S.machine.step s a = some t →
      ((∀ u, S.machine.Steps Machine.anyStep t u → u.shared.state = .failed) ↔
        S.Undisturbed s)) := by
  have hkept : ∀ s a t u, S.machine.Reachable s → S.StoresFailed s a → S.Undisturbed s →
      S.machine.step s a = some t → S.machine.Steps Machine.anyStep t u →
      u.shared.state = .failed := by
    intro s a t u hs hfails hquiet hstep hsteps
    have hfirst := failureKept_of_storesFailed (settled_of_reachable hs) hfails hquiet hstep
    have hlast : S.FailureKept u :=
      hsteps.invariant hfirst fun _ _ _ hs _ hstep => failureKept_step hs hstep
    exact hlast.failed
  constructor
  · intro s a t u hs
    exact hkept s a t u hs.any
  · intro s a t hs hfails hstep
    constructor
    · intro hall
      by_contra hdisturbed
      obtain ⟨u, hsteps, hstate⟩ :=
        overwritten_of_disturbed (settled_of_reachable hs) hfails hdisturbed hstep
      rw [hall u hsteps] at hstate
      cases hstate
    · intro hquiet u hsteps
      exact hkept s a t u hs hfails hquiet hstep hsteps

/-- A step of the only worker. -/
def soleStep (fault : Option Failure) : Action Unit 1 := .worker 0 () fault

/-- The worker is refused while a `request_stop` call has read `Connecting`. -/
def refusedWhileStopping : List (Action Unit 1) :=
  List.replicate 3 (.supervisor none) ++ [.requestStop, .requestStop, soleStep (some .unknown)] ++
    List.replicate 5 (soleStep none)

/-- From the store of `Failed` on: the call stores `Stopping`, and the run ends. -/
def endingStopped : List (Action Unit 1) :=
  [.requestStop, .requestStop, soleStep none] ++ List.replicate 8 (.supervisor none)

theorem failure_lost :
    ¬ ∀ (Handle World Event : Type) (S : Setup Handle World Event) (s t u : S.State)
      (a : Action Event S.workerCount), S.machine.Reachable s → S.StoresFailed s a →
      S.machine.step s a = some t → S.machine.Steps Machine.anyStep t u →
      u.shared.state = .failed := by
  intro hclaim
  obtain ⟨s, hrun, hfails, t, hstep, u, hend, hreturned, hstate⟩ : ∃ s,
      solitary.machine.exec solitary.initial refusedWhileStopping = some s ∧
        solitary.StoresFailed s (soleStep none) ∧ ∃ t,
      solitary.machine.step s (soleStep none) = some t ∧ ∃ u,
      solitary.machine.exec t endingStopped = some u ∧ u.supervisor = .returned ∧
        u.shared.state = .stopped := ⟨_, rfl, rfl, _, rfl, _, rfl, rfl, rfl⟩
  have hfailed := hclaim _ _ _ solitary s t u _ (Machine.reachable_of_exec hrun) hfails hstep
    (.of_exec (fun _ _ _ => trivial) hend)
  rw [hstate] at hfailed
  cases hfailed

/-- The worker that has been told to stop cannot connect, and counts the failure. -/
def stoppedAndRefused : List (Action Unit 1) :=
  stopInTime ++ [.worker 0 () (some .unknown)] ++ List.replicate 5 (.worker 0 () none)

/-- The failure is not stored in this step. -/
def storesNoFailure (s : S.State) : Action Event S.workerCount → Bool
  | .requestStop => true
  | .supervisor _ => decide (s.supervisor ≠ .storeFailed)
  | .worker i _ _ => decide ((s.workers i).pc ≠ .storeFailed)

theorem not_storesFailed {a : Action Event S.workerCount} (h : S.storesNoFailure s a = true) :
    ¬ S.StoresFailed s a := by
  cases a with
  | requestStop => exact id
  | supervisor fault =>
    have hpc : s.supervisor ≠ .storeFailed := of_decide_eq_true h
    exact hpc
  | worker i event fault =>
    have hpc : (s.workers i).pc ≠ .storeFailed := of_decide_eq_true h
    exact hpc

/-- The failure replaces the `Stopping` of the call, and stays whatever follows. -/
theorem failure_stays_stoppedAndRefused :
    ∃ s t, solitary.machine.exec solitary.initial stoppedAndRefused = some s ∧
      s.shared.state = .stopping ∧
      solitary.machine.step s (.worker (0 : Fin 1) () none) = some t ∧
      ∀ u, solitary.machine.Steps Machine.anyStep t u → u.shared.state = .failed := by
  obtain ⟨s, t, hexec, hrun, hstopping, hfails, hclient, hpc, hstep⟩ : ∃ s t,
      solitary.machine.exec solitary.initial stoppedAndRefused = some s ∧
      solitary.machine.execWhile solitary.storesNoFailure solitary.initial stoppedAndRefused =
        some s ∧
      s.shared.state = .stopping ∧ solitary.StoresFailed s (.worker (0 : Fin 1) () none) ∧
      s.shared.client = .idle ∧ (∀ i : Fin 1, (s.workers i).pc = .storeFailed) ∧
      solitary.machine.step s (.worker (0 : Fin 1) () none) = some t :=
    ⟨_, _, rfl, rfl, rfl, rfl, rfl, by decide, rfl⟩
  have hsteps : solitary.machine.Steps
      (fun s a => solitary.StoresFailed s a → solitary.Undisturbed s) solitary.initial s :=
    .of_execWhile (fun _ _ _ hno hyes => absurd hyes (not_storesFailed hno)) hrun
  have hundisturbed : solitary.Undisturbed s := by
    constructor
    · rw [hclient]
      decide
    · intro i
      rw [hpc i]
      decide
  refine ⟨s, t, hexec, hstopping, hstep, fun u hlater => ?_⟩
  exact (failure_stays solitary).1 s _ t u hsteps hfails hundisturbed hstep hlater

end Setup
end Application
end LogGenerator
