import LogGenerator.Application.Lifecycle

/-!
# A stopped run ends

Whatever the transports answer and however the threads interleave: the supervisor and
the workers that have been told to stop take a bounded number of steps, and once a stop
has been requested one of them can always go on until the supervisor has returned. Only
a `request_stop` call that holds `lifecycle_mutex_` can make them wait.
-/

namespace LogGenerator
namespace Application

open Domain

variable {Handle World Event : Type}

/-- The last of the three flushes and what follows it. -/
def AfterFlush.remaining : AfterFlush → ℕ
  | .leave => 1
  | .loop | .complete _ | .fail _ => 5

/-- An upper bound for the steps of a worker that has been told to stop. -/
def WorkerPc.remaining : WorkerPc → ℕ
  | .unstarted => 13
  | .connect => 12
  | .announce | .awaitState => 11
  | .markStarted | .awaitGate => 10
  | .openGate | .checkGate | .render => 9
  | .enterLoop | .send => 8
  | .pace => 5
  | .loopTest | .paceTest => 4
  | .flushMessages next => next.remaining + 2
  | .flushDatagrams next => next.remaining + 1
  | .flushBytes next => next.remaining
  | .setStatus _ | .countError _ => 4
  | .completionLoad | .setError _ => 3
  | .completionStore | .storeFailed => 2
  | .completionStop | .errorStop => 1
  | .done _ => 0

/-- An upper bound for the steps of the supervisor; a worker that is still to be started has
its own share. -/
def SupervisorPc.remaining (workerCount : ℕ) : SupervisorPc → ℕ
  | .prepare => 16 * workerCount + 9
  | .stopTest => 16 * workerCount + 8
  | .spawn k => 14 * (workerCount - k) + 2 * max workerCount k + 7
  | .awaitStop => workerCount + 6
  | .stopWorkers k => (workerCount - k) + 5
  | .join => 4
  | .markFinished => 3
  | .loadState => 2
  | .storeEarlyStopped | .storeStopped => 1
  | .unwind k n _ => 2 * (n - k) + 4
  | .unwindJoin k n _ => 2 * (n - (k + 1)) + 5
  | .setError _ => 3
  | .storeFailed => 2
  | .errorStop => 1
  | .returned => 0

/-- A worker that has not been told to stop may go on as it likes. -/
def Worker.remaining (w : Worker Handle) : ℕ := if w.stopToken then w.pc.remaining else 13

theorem AfterFlush.remaining_le (next : AfterFlush) : next.remaining ≤ 5 := by
  cases next
  all_goals simp [remaining]

theorem WorkerPc.remaining_le (pc : WorkerPc) : pc.remaining ≤ 13 := by
  cases pc
  case flushMessages next | flushDatagrams next | flushBytes next =>
    have hnext := next.remaining_le
    dsimp only [remaining]
    omega
  all_goals simp [remaining]

theorem Worker.remaining_le (w : Worker Handle) : w.remaining ≤ 13 := by
  unfold Worker.remaining
  split_ifs
  · exact w.pc.remaining_le
  · exact le_rfl

namespace Setup

variable {S : Setup Handle World Event} {i : Fin S.workerCount} {sh sh' : Shared World}
  {w w' : Worker Handle} {event : Event} {fault : Option Failure} {s t : S.State}

/-- Where a worker that has been told to stop is led to, it is nearer to its end. -/
theorem Leads.remaining {pc pc' : WorkerPc} (h : S.Leads i sh true fault pc pc') :
    pc'.remaining < pc.remaining := by
  cases h with
  | leave hpc => rcases hpc with rfl | rfl <;> decide
  | throw hpc =>
    rcases hpc with rfl | rfl | rfl
    all_goals simp [WorkerPc.remaining, AfterFlush.remaining]
  | readState hno | render hno | paceFirst hno | renderPaced hno | send hno => cases hno
  | openGate | missGate | stopWaiting | wait | checkGate | passGate | turnBack | enterLoop | pace
  | store | skipStore => decide

/-- Every step of a worker that has been told to stop brings it nearer to its end, and no step
of a worker changes what it has been told. -/
theorem workerStep_remaining (h : S.workerStep i sh w event fault = some (sh', w')) :
    w'.stopToken = w.stopToken ∧ (w.stopToken = true → w'.pc.remaining < w.pc.remaining) := by
  cases moves_of_workerStep h with
  | lead hleads =>
    refine ⟨rfl, fun htold => ?_⟩
    rw [htold] at hleads
    exact hleads.remaining
  | announce hpc hnext | render hpc _ hnext =>
    refine ⟨rfl, fun _ => ?_⟩
    rw [hpc]
    rcases hnext with ⟨rfl, _⟩ | ⟨rfl, _⟩
    · simp [WorkerPc.remaining]
    · simp [WorkerPc.remaining]
  | sent hpc _ _ hnext =>
    refine ⟨rfl, fun _ => ?_⟩
    rw [hpc]
    rcases hnext with rfl | ⟨rfl, _⟩
    · simp [WorkerPc.remaining, AfterFlush.remaining]
    · simp [WorkerPc.remaining]
  | @flushBytes next hpc =>
    refine ⟨rfl, fun _ => ?_⟩
    rw [hpc]
    cases next
    all_goals simp [WorkerPc.remaining, AfterFlush.remaining, AfterFlush.place]
  | publish hpublishes =>
    refine ⟨rfl, fun _ => ?_⟩
    generalize w.pc = before at hpublishes
    cases hpublishes
    all_goals simp [WorkerPc.remaining]
  | connect hpc | refuse hpc | start hpc | reject hpc | complete hpc | fail hpc
  | flushMessages hpc | flushDatagrams hpc =>
    refine ⟨rfl, fun _ => ?_⟩
    rw [hpc]
    simp [WorkerPc.remaining, AfterFlush.remaining]

theorem remaining_updateWorker (s : S.State) (k : ℕ) (f : Worker Handle → Worker Handle)
    (c : ℕ) (hf : ∀ w, (f w).remaining ≤ w.remaining + c) :
    ∑ j, ((S.updateWorker s k f).workers j).remaining ≤ ∑ j, (s.workers j).remaining + c := by
  by_cases hk : k < S.workerCount
  · -- the worker and the others
    have hworkers : (S.updateWorker s k f).workers =
        Function.update s.workers ⟨k, hk⟩ (f (s.workers ⟨k, hk⟩)) := by
      funext j
      by_cases hj : j = ⟨k, hk⟩
      · subst hj
        simp [updateWorker]
      · have hne : j.val ≠ k := fun hval => hj (Fin.ext hval)
        rw [updateWorker_of_ne hne, Function.update_of_ne hj]
    have hsum := sum_update_add s.workers Worker.remaining ⟨k, hk⟩ (f (s.workers ⟨k, hk⟩))
    have hbound := hf (s.workers ⟨k, hk⟩)
    rw [hworkers]
    omega
  · have hworkers : (S.updateWorker s k f).workers = s.workers := by
      funext j
      exact updateWorker_of_ne (by have := j.isLt; omega)
    rw [hworkers]
    exact Nat.le_add_right _ _

/-- How far the run is from its end, but for the workers that have not been told to stop. -/
def remaining (s : S.State) : ℕ :=
  s.supervisor.remaining S.workerCount + ∑ i, (s.workers i).remaining

/-- A step of the supervisor, or of a worker that has been told to stop. -/
def urgent (s : S.State) : Action Event S.workerCount → Bool
  | .requestStop => false
  | .supervisor _ => true
  | .worker i _ _ => (s.workers i).stopToken

theorem SupervisorLeads.remaining {pc pc' : SupervisorPc} (h : S.SupervisorLeads s fault pc pc') :
    pc'.remaining S.workerCount < pc.remaining S.workerCount := by
  cases h
  all_goals dsimp only [SupervisorPc.remaining]
  all_goals omega

theorem supervisorStep_remaining (h : S.supervisorStep s fault = some t) :
    remaining t < remaining s := by
  have htold (w : Worker Handle) : ({ w with stopToken := true } : Worker Handle).remaining ≤
      w.remaining + 0 := by
    rw [Worker.remaining, Worker.remaining, if_pos rfl]
    split_ifs
    · exact le_rfl
    · exact w.pc.remaining_le
  have hconnect (w : Worker Handle) : ({ w with pc := .connect } : Worker Handle).remaining ≤
      w.remaining + 13 :=
    (Worker.remaining_le _).trans (Nat.le_add_left _ _)
  unfold remaining
  cases moves_of_supervisorStep h with
  | lead hleads => exact Nat.add_lt_add_right hleads.remaining _
  | store hstores =>
    apply Nat.add_lt_add_right
    generalize s.supervisor = before at hstores
    cases hstores
    all_goals simp [SupervisorPc.remaining]
  | @spawn k hpc hroom =>
    have hsum := remaining_updateWorker s k _ 13 hconnect
    rw [hpc]
    dsimp only [SupervisorPc.remaining]
    omega
  | @tell k _ htells =>
    have hsum := remaining_updateWorker s k _ 0 htold
    generalize s.supervisor = before at htells
    cases htells
    all_goals dsimp only [SupervisorPc.remaining]
    all_goals omega

theorem step_remaining {a : Action Event S.workerCount} (h : S.machine.step s a = some t) :
    remaining t + (if urgent s a then 1 else 0) ≤ remaining s := by
  cases a with
  | requestStop =>
    cases h
    exact le_rfl
  | supervisor fault => exact supervisorStep_remaining h
  | worker i event fault =>
    obtain ⟨⟨sh', w'⟩, hr, rfl⟩ := Option.map_eq_some_iff.mp h
    obtain ⟨htoken, hlower⟩ := workerStep_remaining hr
    have hsum := sum_update_add s.workers Worker.remaining i w'
    unfold remaining urgent
    dsimp only
    by_cases htold : (s.workers i).stopToken = true
    · have hless := hlower htold
      have hold : (s.workers i).remaining = (s.workers i).pc.remaining := by
        rw [Worker.remaining, if_pos htold]
      have hnew : w'.remaining = w'.pc.remaining := by
        rw [Worker.remaining, htoken, if_pos htold]
      rw [if_pos htold]
      omega
    · have hold : (s.workers i).remaining = 13 := by rw [Worker.remaining, if_neg htold]
      have hnew : w'.remaining = 13 := by rw [Worker.remaining, htoken, if_neg htold]
      rw [if_neg htold]
      omega

theorem remaining_initial : remaining S.initial = 29 * S.workerCount + 9 := by
  have hworkers : ∀ i, (S.initial.workers i).remaining = 13 := fun _ => rfl
  unfold remaining
  simp only [hworkers, Finset.sum_const, Finset.card_univ, Fintype.card_fin, smul_eq_mul]
  dsimp only [initial, SupervisorPc.remaining]
  omega

end Setup

/-- The supervisor's position implies that worker `i` has been started. -/
def SupervisorPc.Spawned : SupervisorPc → ℕ → Prop
  | .spawn k, i => i < k
  | .awaitStop, _ | .stopWorkers _, _ | .join, _ => True
  | .unwind _ n _, i => i < n
  | .unwindJoin k n _, i => i = k ∨ i < n
  | _, _ => False

/-- The supervisor's position implies that worker `i` has been told to stop. -/
def SupervisorPc.Told : SupervisorPc → ℕ → Prop
  | .stopWorkers k, i => i < k
  | .join, _ => True
  | .unwindJoin k _ _, i => i = k
  | _, _ => False

/-- The worker has a transport, which it may still use. -/
def WorkerPc.Connected : WorkerPc → Prop
  | .announce | .markStarted | .openGate | .awaitGate | .awaitState | .checkGate | .enterLoop
  | .loopTest | .render | .pace | .paceTest | .send
  | .flushMessages .loop | .flushDatagrams .loop | .flushBytes .loop => True
  | _ => False

namespace Setup

variable {S : Setup Handle World Event} {i : Fin S.workerCount} {sh sh' : Shared World}
  {w w' : Worker Handle} {event : Event} {fault : Option Failure} {s t : S.State}

/-- What the supervisor waits for at its joins will come. -/
structure Joinable (s : S.State) : Prop where
  spawned : ∀ i : Fin S.workerCount, s.supervisor.Spawned i → (s.workers i).pc ≠ .unstarted
  told : ∀ i : Fin S.workerCount, s.supervisor.Told i → (s.workers i).stopToken = true
  connected : ∀ i, (s.workers i).pc.Connected → (s.workers i).handle ≠ none

theorem Leads.connected {pc : WorkerPc} (h : S.Leads i sh told fault w.pc pc)
    (hw : w.pc.Connected → w.handle ≠ none) :
    pc ≠ .unstarted ∧ (pc.Connected → w.handle ≠ none) := by
  generalize w.pc = before at h hw
  cases h with
  | leave | throw | missGate | turnBack | store | skipStore => exact ⟨by simp, fun hno => hno.elim⟩
  | openGate | readState | stopWaiting | wait | checkGate | passGate | enterLoop | render
  | paceFirst | pace | renderPaced | send => exact ⟨by simp, fun _ => hw trivial⟩

theorem workerStep_connected (h : S.workerStep i sh w event fault = some (sh', w'))
    (hw : w.pc.Connected → w.handle ≠ none) :
    w'.pc ≠ .unstarted ∧ (w'.pc.Connected → w'.handle ≠ none) := by
  cases moves_of_workerStep h with
  | lead hleads => exact hleads.connected hw
  | announce hpc hnext | render hpc _ hnext =>
    have hhandle := hw (by rw [hpc]; trivial)
    rcases hnext with ⟨rfl, _⟩ | ⟨rfl, _⟩
    · exact ⟨by simp, fun _ => hhandle⟩
    · exact ⟨by simp, fun _ => hhandle⟩
  | start hpc => exact ⟨by simp, fun _ => hw (by rw [hpc]; trivial)⟩
  | connect => exact ⟨by simp, by simp⟩
  | sent _ _ _ hnext =>
    refine ⟨?_, by simp [creditBatch]⟩
    rcases hnext with rfl | ⟨rfl, _⟩
    · simp
    · simp
  | @flushMessages next hpc | @flushDatagrams next hpc | @flushBytes next hpc =>
    rw [hpc] at hw
    cases next with
    | loop => exact ⟨by simp [AfterFlush.place], fun _ => hw trivial⟩
    | leave | complete | fail => exact ⟨by simp [AfterFlush.place], fun hno => hno.elim⟩
  | publish hpublishes =>
    generalize w.pc = before at hpublishes
    cases hpublishes
    all_goals exact ⟨by simp, fun hno => hno.elim⟩
  | refuse | reject | complete | fail => exact ⟨by simp, fun hno => hno.elim⟩

theorem joinable_initial : Joinable S.initial where
  spawned _ h := h.elim
  told _ h := h.elim
  connected _ h := h.elim

/-- A step of the supervisor that neither starts a worker nor tells one to stop. -/
theorem Joinable.move (hs : Joinable s) {sh : Shared World} {pc : SupervisorPc}
    (hspawned : ∀ i : Fin S.workerCount, pc.Spawned i → (s.workers i).pc ≠ .unstarted)
    (htold : ∀ i : Fin S.workerCount, pc.Told i → (s.workers i).stopToken = true) :
    Joinable ({ s with shared := sh, supervisor := pc } : S.State) :=
  ⟨hspawned, htold, hs.connected⟩

/-- A worker is told to stop. -/
theorem Joinable.tell (hs : Joinable s) {k : ℕ} {pc : SupervisorPc}
    (hspawned : ∀ i : Fin S.workerCount, pc.Spawned i → (s.workers i).pc ≠ .unstarted)
    (htold : ∀ i : Fin S.workerCount, pc.Told i → i.val = k ∨ (s.workers i).stopToken = true) :
    Joinable ({ S.updateWorker s k fun w => { w with stopToken := true } with
      supervisor := pc } : S.State) := by
  have hsame {β : Type _} (proj : Worker Handle → β)
      (h : ∀ w : Worker Handle, proj { w with stopToken := true } = proj w) (i : Fin S.workerCount) :=
    updateWorker_proj (s := s) (k := k) proj h i
  refine ⟨?_, ?_, ?_⟩
  · intro i hi
    dsimp only
    rw [hsame Worker.pc (fun _ => rfl)]
    exact hspawned i hi
  · intro i hi
    by_cases hik : i.val = k
    · simp [updateWorker, hik]
    · dsimp only
      rw [updateWorker_of_ne hik]
      exact (htold i hi).resolve_left hik
  · intro i hi
    dsimp only at hi ⊢
    rw [hsame Worker.pc (fun _ => rfl)] at hi
    rw [hsame Worker.handle (fun _ => rfl)]
    exact hs.connected i hi

theorem SupervisorLeads.spawned_of_spawned {pc pc' : SupervisorPc} {i : Fin S.workerCount}
    (h : S.SupervisorLeads s fault pc pc') (hi : pc'.Spawned i) : pc.Spawned i := by
  cases h with
  | spawned hall => exact i.isLt.trans_le hall
  | goOn => exact absurd hi (Nat.not_lt_zero _)
  | joinedOne => exact .inr hi
  | unwind | stop | told => exact hi
  | refuse | prepared | stopEarly | joined | finished | keepFailed | settle | unwound =>
    exact hi.elim

theorem SupervisorLeads.told_of_told {pc pc' : SupervisorPc} {i : Fin S.workerCount}
    (h : S.SupervisorLeads s fault pc pc') (hi : pc'.Told i) : pc.Told i := by
  cases h with
  | told hall => exact i.isLt.trans_le hall
  | stop => exact absurd hi (Nat.not_lt_zero _)
  | refuse | prepared | stopEarly | goOn | unwind | spawned | joined | finished | keepFailed
  | settle | unwound | joinedOne => exact hi.elim

theorem Joinable.supervisorStep (hs : Joinable s) (h : S.supervisorStep s fault = some t) :
    Joinable t := by
  cases moves_of_supervisorStep h with
  | lead hleads =>
    exact hs.move (fun i hi => hs.spawned i (hleads.spawned_of_spawned hi))
      fun i hi => hs.told i (hleads.told_of_told hi)
  | store hstores =>
    generalize s.supervisor = before at hstores
    cases hstores
    all_goals exact hs.move (fun _ hi => hi.elim) fun _ hi => hi.elim
  | @spawn k hpc _ =>
    have hspawned := hs.spawned
    rw [hpc] at hspawned
    refine ⟨?_, fun _ hi => hi.elim, ?_⟩
    · intro i hi
      by_cases hik : i.val = k
      · simp [updateWorker, hik]
      · have hless : i.val < k + 1 := hi
        dsimp only
        rw [updateWorker_of_ne hik]
        exact hspawned i (show i.val < k by omega)
    · intro i hi
      by_cases hik : i.val = k
      · simp [updateWorker, hik, WorkerPc.Connected] at hi
      · dsimp only at hi ⊢
        rw [updateWorker_of_ne hik] at hi ⊢
        exact hs.connected i hi
  | @tell k _ htells =>
    have hspawned := hs.spawned
    have htold := hs.told
    generalize s.supervisor = before at htells hspawned htold
    cases htells with
    | stop =>
      refine Joinable.tell hs (fun i _ => hspawned i trivial) ?_
      intro i hi
      have hless : i.val < k + 1 := hi
      by_cases hik : i.val = k
      · exact .inl hik
      · exact .inr (htold i (show i.val < k by omega))
    | @unwind _ n _ hleft =>
      apply hs.tell
      · rintro i (hik | hin)
        · exact hspawned i (show i.val < n by omega)
        · exact hspawned i hin
      · intro i hi
        exact .inl hi

theorem joinable_step {a : Action Event S.workerCount} (hs : Joinable s)
    (h : S.machine.step s a = some t) : Joinable t := by
  cases a with
  | requestStop =>
    cases h
    exact hs.move hs.spawned hs.told
  | supervisor fault => exact hs.supervisorStep h
  | worker i event fault =>
    obtain ⟨⟨sh', w'⟩, hr, rfl⟩ := Option.map_eq_some_iff.mp h
    obtain ⟨hstarted, hconnected⟩ := workerStep_connected hr (hs.connected i)
    obtain ⟨htoken, -⟩ := workerStep_remaining hr
    refine ⟨?_, ?_, ?_⟩
    all_goals
      intro j hj
      by_cases hij : j = i
    · subst hij
      simpa using hstarted
    · simpa [Function.update_of_ne hij] using hs.spawned j hj
    · subst hij
      simpa [htoken] using hs.told j hj
    · simpa [Function.update_of_ne hij] using hs.told j hj
    · subst hij
      simp only [Function.update_self] at hj ⊢
      exact hconnected hj
    · simp only [Function.update_of_ne hij] at hj ⊢
      exact hs.connected j hj

theorem joinable_of_reachable (h : S.machine.Reachable s) : Joinable s :=
  h.invariant joinable_initial fun _ _ _ hs _ hstep => joinable_step hs hstep

/-- A worker that runs can go on, but for the lock. -/
theorem connectedWorker_moves (i : Fin S.workerCount) (event : Event) (hstarted : w.pc ≠ .unstarted)
    (hdone : ∀ exit, w.pc ≠ .done exit) (hconnected : w.pc.Connected → w.handle ≠ none)
    (hclient : sh.client = .idle) : ∃ r, S.workerStep i sh w event none = some r := by
  cases hpc : w.pc
  all_goals simp only [workerStep, hpc]
  case unstarted => exact absurd hpc hstarted
  case done exit => exact absurd hpc (hdone exit)
  case markStarted => exact ⟨_, if_pos hclient⟩
  case openGate => split_ifs <;> exact ⟨_, rfl⟩
  case connect => split <;> exact ⟨_, rfl⟩
  case render => split <;> exact ⟨_, rfl⟩
  case send =>
    obtain ⟨handle, hhandle⟩ := Option.ne_none_iff_exists'.mp (hconnected (by rw [hpc]; trivial))
    rw [hhandle]
    simp only
    split <;> exact ⟨_, rfl⟩
  all_goals exact ⟨_, rfl⟩

/-- A worker that the supervisor waits for has been told to stop and can go on. -/
theorem told_moves (hs : Joinable s) {i : Fin S.workerCount} (hspawned : s.supervisor.Spawned i)
    (htold : s.supervisor.Told i) (hdone : ∀ exit, (s.workers i).pc ≠ .done exit)
    (hclient : s.shared.client = .idle) (event : Event) :
    ∃ a t, urgent s a = true ∧ S.machine.step s a = some t := by
  obtain ⟨⟨sh', w'⟩, hr⟩ := connectedWorker_moves i event (hs.spawned i hspawned) hdone (hs.connected i)
    hclient
  exact ⟨.worker i event none, _, hs.told i htold, machine_step_worker hr⟩

theorem exists_not_done {p : Fin S.workerCount → Prop}
    (h : ¬ ∀ i, p i → (s.workers i).pc = .done .returned ∨ (s.workers i).pc = .done .exception) :
    ∃ i, p i ∧ ∀ exit, (s.workers i).pc ≠ .done exit := by
  push Not at h
  obtain ⟨i, hi, hreturned, hexception⟩ := h
  refine ⟨i, hi, fun exit hexit => ?_⟩
  cases exit
  · exact hreturned hexit
  · exact hexception hexit

theorem supervisor_moves_or_waits (hs : Joinable s) (hstop : s.shared.stopRequested = true)
    (hreturned : s.supervisor ≠ .returned) (hclient : s.shared.client = .idle) (event : Event) :
    ∃ a t, urgent s a = true ∧ S.machine.step s a = some t := by
  have hmoves {t : S.State} (h : S.supervisorStep s none = some t) :
      ∃ a t, urgent s a = true ∧ S.machine.step s a = some t :=
    ⟨.supervisor none, t, rfl, h⟩
  cases hpc : s.supervisor
  case returned => exact absurd hpc hreturned
  case awaitStop => exact hmoves (by rw [Setup.supervisorStep, hpc]; exact if_pos hstop)
  case markFinished => exact hmoves (by rw [Setup.supervisorStep, hpc]; exact if_pos hclient)
  case spawn k | stopWorkers k =>
    by_cases hk : k < S.workerCount
    · exact hmoves (by rw [Setup.supervisorStep, hpc]; exact if_pos hk)
    · exact hmoves (by rw [Setup.supervisorStep, hpc]; exact if_neg hk)
  case unwind k n failure =>
    by_cases hk : k < n
    · exact hmoves (by rw [Setup.supervisorStep, hpc]; exact if_pos hk)
    · exact hmoves (by rw [Setup.supervisorStep, hpc]; exact if_neg hk)
  case join =>
    by_cases hdone : S.allDone s = true
    · exact hmoves (by rw [Setup.supervisorStep, hpc]; exact if_pos hdone)
    · have hsome : ¬ ∀ i, True → (s.workers i).pc = .done .returned ∨
          (s.workers i).pc = .done .exception := fun hall =>
        hdone (decide_eq_true fun i => hall i trivial)
      obtain ⟨i, -, hi⟩ := exists_not_done hsome
      exact told_moves hs (by rw [hpc]; trivial) (by rw [hpc]; trivial) hi hclient event
  case unwindJoin k n failure =>
    by_cases hdone : S.workerDone s k = true
    · exact hmoves (by rw [Setup.supervisorStep, hpc]; exact if_pos hdone)
    · obtain ⟨i, hik, hi⟩ := exists_not_done (fun hall => hdone (decide_eq_true hall))
      exact told_moves hs (by rw [hpc]; exact .inl hik) (by rw [hpc]; exact hik) hi hclient event
  all_goals exact hmoves (by rw [Setup.supervisorStep, hpc])

/-- In no run do the supervisor and the workers that have been told to stop take more than
`29 * workerCount + 9` steps. From a requested stop on, one of them can go on until the supervisor
has returned, at the latest when a `request_stop` call has left the lock. -/
theorem stop_ends {actions : List (Action Event S.workerCount)}
    (h : S.machine.exec S.initial actions = some s) :
    S.machine.urgentSteps urgent S.initial actions ≤ 29 * S.workerCount + 9 ∧
      (s.shared.stopRequested = true → s.supervisor ≠ .returned → ∀ _ : Event,
        ∃ a t, S.machine.step s a = some t ∧
          (urgent s a = true ∨ a = .requestStop ∧ s.shared.client ≠ .idle)) := by
  constructor
  · have hlowers (s : S.State) (a : Action Event S.workerCount) (t : S.State) (_ : True)
        (_ : Machine.anyStep s a) (hstep : S.machine.step s a = some t) :
        True ∧ remaining t + (if urgent s a then 1 else 0) ≤ remaining s :=
      ⟨trivial, step_remaining hstep⟩
    have hcount := Machine.urgentSteps_le_rank hlowers (fun _ _ _ => trivial) trivial h
    have hinitial := remaining_initial (S := S)
    omega
  · intro hstop hreturned event
    have hjoinable := joinable_of_reachable (Machine.reachable_of_exec h)
    by_cases hclient : s.shared.client = .idle
    · obtain ⟨a, t, hurgent, hstep⟩ :=
        supervisor_moves_or_waits hjoinable hstop hreturned hclient event
      exact ⟨a, t, hstep, .inl hurgent⟩
    · exact ⟨.requestStop, _, rfl, .inr ⟨rfl, hclient⟩⟩

theorem stop_ends_lateStop :
    ∃ s, solitary.machine.exec solitary.initial (lateStop.take 5) = some s ∧
      ∃ a t, solitary.machine.step s a = some t ∧
        (urgent s a = true ∨ a = .requestStop ∧ s.shared.client ≠ .idle) := by
  obtain ⟨s, hrun, hstop, hsupervisor⟩ :
      ∃ s, solitary.machine.exec solitary.initial (lateStop.take 5) = some s ∧
        s.shared.stopRequested = true ∧ s.supervisor = .stopTest := ⟨_, rfl, rfl, rfl⟩
  have hreturned : s.supervisor ≠ .returned := by
    rw [hsupervisor]
    simp
  exact ⟨s, hrun, (stop_ends hrun).2 hstop hreturned ()⟩

end Setup
end Application
end LogGenerator
