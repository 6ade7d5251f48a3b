import LogGenerator.Application.Totals

/-!
# What a run shows at its end

A front end sees the state word and the status message. A run that nobody stops ends only
after a failure or a completion, and one of the two still shows when the supervisor has
returned, although a completion may overwrite the state of a failure.
-/

namespace LogGenerator
namespace Application

open Domain

variable {Handle World Event : Type}

/-- A failure or a completion can be seen. -/
def Shared.Shows (sh : Shared World) : Prop := sh.state = .failed ∨ sh.statusMessage ≠ []

/-- What can be seen stays so. -/
structure Shared.Onward (sh sh' : Shared World) : Prop where
  statusMessage : sh.statusMessage ≠ [] → sh'.statusMessage ≠ []
  shows : sh.Shows → sh'.Shows

theorem Shared.Onward.of_same {sh sh' : Shared World} (hstate : sh'.state = sh.state)
    (hmessage : sh'.statusMessage = sh.statusMessage) : sh.Onward sh' := by
  constructor
  · rw [hmessage]
    exact id
  · unfold Shared.Shows
    rw [hstate, hmessage]
    exact id

/-- What holds of the members at each place of a worker. -/
def WorkerPc.Shows (sh : Shared World) : WorkerPc → Prop
  | .flushMessages (.complete result) | .flushDatagrams (.complete result)
  | .flushBytes (.complete result) | .setStatus result => result ≠ .sent
  | .completionLoad | .completionStore | .completionStop => sh.statusMessage ≠ []
  | .errorStop | .done .exception => sh.Shows
  | _ => True

/-- What holds of the members at each place of the supervisor of a run that nobody stops. -/
def SupervisorPc.Shows (sh : Shared World) : SupervisorPc → Prop
  | .prepare | .stopTest => sh.stopRequested = false
  | .storeEarlyStopped => False
  | .stopWorkers _ | .join | .markFinished | .loadState | .errorStop | .returned => sh.Shows
  | .storeStopped => sh.statusMessage ≠ []
  | _ => True

theorem completionMessage_ne_nil {result : SendResult} (h : result ≠ .sent) :
    completionMessage result ≠ [] := by
  cases result
  case sent => exact absurd rfl h
  all_goals
    unfold completionMessage
    decide

theorem WorkerPc.Shows.mono {sh sh' : Shared World} {pc : WorkerPc} (h : pc.Shows sh)
    (honward : sh.Onward sh') : pc.Shows sh' := by
  unfold WorkerPc.Shows at h ⊢
  split at h
  all_goals first
    | exact h
    | exact honward.statusMessage h
    | exact honward.shows h

namespace Setup

variable {S : Setup Handle World Event} {i : Fin S.workerCount} {sh sh' : Shared World}
  {w w' : Worker Handle} {event : Event} {fault : Option Failure} {s t : S.State}

theorem Leads.shows {pc : WorkerPc} (h : S.Leads i sh told fault w.pc pc)
    (hw : w.pc.Shows sh) : pc.Shows sh := by
  generalize w.pc = before at h hw
  cases h
  all_goals trivial

/-- What a worker's step does to what can be seen. -/
theorem workerStep_shows (h : S.workerStep i sh w event fault = some (sh', w'))
    (hw : w.pc.Shows sh) : sh.Onward sh' ∧ w'.pc.Shows sh' ∧
      (sh'.stopRequested = true → sh.stopRequested = true ∨ sh'.Shows) := by
  cases moves_of_workerStep h with
  | lead hleads => exact ⟨.of_same rfl rfl, hleads.shows hw, .inl⟩
  | announce _ hnext | render _ _ hnext =>
    refine ⟨.of_same rfl rfl, ?_, .inl⟩
    rcases hnext with ⟨rfl, _⟩ | ⟨rfl, _⟩
    · trivial
    · trivial
  | sent _ _ _ hnext =>
    refine ⟨.of_same rfl rfl, ?_, .inl⟩
    rcases hnext with rfl | ⟨rfl, _⟩
    · trivial
    · trivial
  | start _ hconnecting =>
    refine ⟨⟨id, ?_⟩, trivial, .inl⟩
    rintro (hfailed | hmessage)
    · rw [hconnecting] at hfailed
      cases hfailed
    · exact .inr hmessage
  | complete _ _ _ hresult => exact ⟨.of_same rfl rfl, hresult, .inl⟩
  | @flushMessages next hpc | @flushDatagrams next hpc | @flushBytes next hpc =>
    rw [hpc] at hw
    refine ⟨.of_same rfl rfl, ?_, .inl⟩
    cases next with
    | complete => exact hw
    | loop | leave | fail => trivial
  | publish hpublishes =>
    generalize w.pc = before at hpublishes hw
    cases hpublishes with
    | setStatus =>
      have hmessage := completionMessage_ne_nil hw
      exact ⟨⟨fun _ => hmessage, fun _ => .inr hmessage⟩, hmessage, .inl⟩
    | completionStore => exact ⟨⟨id, fun _ => .inr hw⟩, hw, .inl⟩
    | completionStop => exact ⟨.of_same rfl rfl, trivial, fun _ => .inr (.inr hw)⟩
    | countError | setError => exact ⟨.of_same rfl rfl, trivial, .inl⟩
    | storeFailed => exact ⟨⟨id, fun _ => .inl rfl⟩, .inl rfl, .inl⟩
    | errorStop => exact ⟨.of_same rfl rfl, hw, fun _ => .inr hw⟩
  | connect | refuse | reject | fail => exact ⟨.of_same rfl rfl, trivial, .inl⟩

/-- The invariant of a run that nobody stops. -/
structure Noticed (s : S.State) : Prop where
  stopped : s.shared.stopRequested = true → s.shared.Shows
  workers : ∀ i, (s.workers i).pc.Shows s.shared
  supervisor : s.supervisor.Shows s.shared

theorem noticed_initial : Noticed S.initial where
  stopped h := by cases h
  workers _ := trivial
  supervisor := rfl

/-- A step of the supervisor that only moves it on. -/
theorem Noticed.move (hs : Noticed s) {pc : SupervisorPc} (hpc : pc.Shows s.shared) :
    Noticed ({ s with supervisor := pc } : S.State) :=
  ⟨hs.stopped, hs.workers, hpc⟩

/-- A step of the supervisor at one worker. -/
theorem Noticed.updateWorker (hs : Noticed s) {k : ℕ} {f : Worker Handle → Worker Handle}
    (hf : ∀ w, (f w).pc = w.pc ∨ (f w).pc = .connect) {pc : SupervisorPc}
    (hpc : pc.Shows s.shared) :
    Noticed ({ S.updateWorker s k f with supervisor := pc } : S.State) := by
  refine ⟨hs.stopped, fun i => ?_, hpc⟩
  have hshows := hs.workers i
  by_cases hi : i.val = k
  · simp only [Setup.updateWorker, hi, ↓reduceIte]
    rcases hf (s.workers i) with hsame | hconnect
    · rw [hsame]
      exact hshows
    · rw [hconnect]
      trivial
  · dsimp only
    rw [updateWorker_of_ne hi]
    exact hshows

theorem SupervisorLeads.shows {pc pc' : SupervisorPc} (h : S.SupervisorLeads s fault pc pc')
    (hstopped : s.shared.stopRequested = true → s.shared.Shows) (hpc : pc.Shows s.shared) :
    pc'.Shows s.shared := by
  cases h with
  | stopEarly hstop =>
    rw [SupervisorPc.Shows, hstop] at hpc
    cases hpc
  | stop hstop => exact hstopped hstop
  | settle hstate => exact hpc.resolve_left hstate
  | prepared | told | joined | finished | keepFailed => exact hpc
  | refuse | goOn | unwind | spawned | unwound | joinedOne => trivial

theorem SupervisorStores.noticed {sh : Shared World} {pc pc' : SupervisorPc}
    (h : SupervisorStores s.shared pc sh pc') (hpc : pc.Shows s.shared) :
    s.shared.Onward sh ∧ pc'.Shows sh ∧
      (sh.stopRequested = true → s.shared.stopRequested = true ∨ sh.Shows) := by
  cases h with
  | earlyStopped => exact hpc.elim
  | stopped => exact ⟨⟨id, fun _ => .inr hpc⟩, .inr hpc, .inl⟩
  | setError failure => exact ⟨.of_same rfl rfl, trivial, .inl⟩
  | storeFailed => exact ⟨⟨id, fun _ => .inl rfl⟩, .inl rfl, .inl⟩
  | errorStop => exact ⟨.of_same rfl rfl, hpc, fun _ => .inr hpc⟩

theorem Noticed.supervisorStep (hs : Noticed s) (h : S.supervisorStep s fault = some t) :
    Noticed t := by
  have hshows := hs.supervisor
  cases moves_of_supervisorStep h with
  | lead hleads => exact hs.move (hleads.shows hs.stopped hshows)
  | store hstores =>
    obtain ⟨honward, hnext, hstop⟩ := hstores.noticed hshows
    refine ⟨fun hstopped => ?_, fun i => (hs.workers i).mono honward, hnext⟩
    rcases hstop hstopped with hbefore | hafter
    · exact honward.shows (hs.stopped hbefore)
    · exact hafter
  | spawn => exact hs.updateWorker (fun _ => .inr rfl) trivial
  | tell htells =>
    generalize s.supervisor = before at htells hshows
    refine hs.updateWorker ?_ ?_
    · exact fun _ => .inl rfl
    · cases htells with
      | stop => exact hshows
      | unwind => trivial

theorem Noticed.step {a : Action Event S.workerCount} (hs : Noticed s) (hconserved : S.Conserved s)
    (ha : a ≠ .requestStop) (h : S.machine.step s a = some t) : Noticed t := by
  cases a with
  | requestStop => exact absurd rfl ha
  | supervisor fault => exact hs.supervisorStep h
  | worker i event fault =>
    obtain ⟨⟨sh', w'⟩, hr, rfl⟩ := Option.map_eq_some_iff.mp h
    obtain ⟨honward, hworker, hstop⟩ := workerStep_shows hr (hs.workers i)
    refine ⟨?_, ?_, ?_⟩
    · intro hstopped
      rcases hstop hstopped with hbefore | hshows
      · exact honward.shows (hs.stopped hbefore)
      · exact hshows
    · intro j
      by_cases hij : j = i
      · subst hij
        simpa using hworker
      · simpa [Function.update_of_ne hij] using (hs.workers j).mono honward
    · -- no worker has been started before the stop test
      have hunspawned (hpc : s.supervisor.Unspawned i) : False :=
        workerStep_not_quiet hr (.inl (hconserved.unspawned i hpc))
      have hshows := hs.supervisor
      cases hpc : s.supervisor
      all_goals simp only [SupervisorPc.Shows, hpc] at hshows ⊢
      case prepare | stopTest =>
        refine (hunspawned ?_).elim
        rw [hpc]
        trivial
      case stopWorkers | join | markFinished | loadState | errorStop | returned =>
        exact honward.shows hshows
      case storeStopped => exact honward.statusMessage hshows

/-- As long as nobody calls `request_stop`. -/
theorem noticed_of_steps (h : S.machine.Steps (fun _ a => a ≠ .requestStop) S.initial s) :
    Noticed s :=
  h.invariant_with noticed_initial conserved_initial (fun _ _ _ hs _ hstep => hs.step hstep)
    fun _ _ _ hconserved hs ha hstep => hs.step hconserved ha hstep

theorem endsTerminal_of_steps (h : S.machine.Steps (fun s a => ¬ S.LateStore s a) S.initial s) :
    S.EndsTerminal s := by
  refine h.invariant_with ?_ settled_initial (fun _ _ _ hs _ hstep => settled_step hs hstep)
    fun _ _ _ hsettled hs hok hstep => endsTerminal_step hsettled hs hok hstep
  rintro (hpc | hpc)
  · cases hpc
  · cases hpc

/-- The state word says `Stopped` only when the supervisor has returned. -/
theorem returned_of_stopped (h : S.machine.Reachable s) (hstate : s.shared.state = .stopped) :
    s.supervisor = .returned := by
  revert hstate
  refine h.invariant (I := fun s => s.shared.state = .stopped → s.supervisor = .returned)
    (fun hstate => by cases hstate) ?_
  intro s a t hs _ hstep hstate
  cases a with
  | requestStop =>
    cases hstep
    apply hs
    cases hclient : s.shared.client
    all_goals simp_all [clientStep]
  | supervisor fault =>
    have hrunning : s.shared.state ≠ .stopped := by
      intro hstopped
      simp [machine, step, Setup.supervisorStep, hs hstopped] at hstep
    cases moves_of_supervisorStep hstep with
    | store hstores =>
      generalize s.supervisor = before at hstores
      cases hstores with
      | earlyStopped | stopped => rfl
      | storeFailed => cases hstate
      | setError | errorStop => exact absurd hstate hrunning
    | lead | spawn | tell => exact absurd hstate hrunning
  | worker i event fault =>
    obtain ⟨⟨sh', w'⟩, hr, rfl⟩ := Option.map_eq_some_iff.mp hstep
    apply hs
    rcases (workerStep_state hr).2.1 with hsame | ⟨_, hrunning⟩ | ⟨_, hstopping⟩ | hfailed
    · exact hsame.symm.trans hstate
    all_goals simp_all

end Setup
end Application
end LogGenerator
