import LogGenerator.Application.Lifecycle

/-!
# The counters

The three totals and the send errors as quantities that every step conserves: what
the workers still hold locally is what separates the totals from what was sent.
-/

namespace LogGenerator
namespace Application

open Domain

variable {Handle World Event : Type}

/-- Messages, datagrams and bytes, ordered componentwise. -/
abbrev Tally := ℕ × ℕ × ℕ

/-- What 64-bit counters show of it. -/
def Tally.wrapped (t : Tally) : Tally := (t.1 % 2 ^ 64, t.2.1 % 2 ^ 64, t.2.2 % 2 ^ 64)

/-- No counter has wrapped. -/
def Tally.Fits (t : Tally) : Prop := t.1 < 2 ^ 64 ∧ t.2.1 < 2 ^ 64 ∧ t.2.2 < 2 ^ 64

theorem Tally.wrapped_of_fits {t : Tally} (h : t.Fits) : t.wrapped = t := by
  rw [wrapped, Nat.mod_eq_of_lt h.1, Nat.mod_eq_of_lt h.2.1, Nat.mod_eq_of_lt h.2.2]

theorem Tally.wrapped_le (t : Tally) : t.wrapped ≤ t :=
  ⟨Nat.mod_le _ _, Nat.mod_le _ _, Nat.mod_le _ _⟩

def Shared.totals (sh : Shared World) : Tally :=
  (sh.totalMessages, sh.totalDatagrams, sh.totalBytes)

def Worker.locals (w : Worker Handle) : Tally :=
  (w.localMessages, w.localDatagrams, w.localBytes)

/-- What the calls that returned `Sent` carried, read off their bytes. -/
def carried (isDatagram : Bool) (endpoint : EndpointConfig) (accepted : List (List Bytes)) :
    Tally :=
  (accepted.map fun views =>
    (carriedEvents isDatagram endpoint views, carriedDatagrams isDatagram views,
      views.flatten.length)).sum

/-- One for a worker that has counted its exception. -/
def WorkerPc.faults : WorkerPc → ℕ
  | .setError _ | .storeFailed | .errorStop | .done .exception => 1
  | _ => 0

/-- What a worker has already flushed, by its position. -/
def Worker.Drained (w : Worker Handle) : Prop :=
  match w.pc with
  | .loopTest | .render | .pace | .paceTest | .send | .flushMessages _ => True
  | .flushDatagrams _ => w.localMessages = 0
  | .flushBytes _ => w.localMessages = 0 ∧ w.localDatagrams = 0
  | _ => w.locals = 0

/-- The batch and the packet held over are counted exactly, and the flushed counters
are zero. -/
structure Worker.Counted (isDatagram : Bool) (endpoint : EndpointConfig) (w : Worker Handle) :
    Prop where
  batch : w.batch.Exact isDatagram endpoint
  pack : w.pack.Exact
  drained : w.Drained

theorem Worker.Drained.of_quiet {w : Worker Handle} (h : w.Drained) (hquiet : w.pc.Quiet) :
    w.locals = 0 := by
  rcases hquiet with hpc | ⟨exit, hpc⟩
  · simpa [Drained, hpc] using h
  · simpa [Drained, hpc] using h

theorem carried_append (isDatagram : Bool) (endpoint : EndpointConfig)
    (accepted : List (List Bytes)) (b : Batch) (hb : b.Exact isDatagram endpoint) :
    carried isDatagram endpoint (accepted ++ [b.views]) =
      carried isDatagram endpoint accepted + (b.events, b.datagrams, b.bytes) := by
  rw [carried, List.map_append, List.sum_append, hb.events, hb.datagrams, hb.bytes]
  rfl

/-- The supervisor has not yet started worker `i`. -/
def SupervisorPc.Unspawned : SupervisorPc → ℕ → Prop
  | .prepare, _ | .stopTest, _ => True
  | .spawn k, i => k ≤ i
  | _, _ => False

/-- The supervisor has joined every worker it started. -/
def SupervisorPc.Joined : SupervisorPc → Prop
  | .markFinished | .loadState | .storeStopped | .setError _ | .storeFailed | .errorStop
  | .returned => True
  | _ => False

theorem SupervisorPc.Joined.settles {pc : SupervisorPc} (h : pc.Joined) (i : ℕ) : pc.Settles i := by
  cases pc
  case markFinished | loadState | storeStopped | setError | storeFailed | errorStop | returned =>
    trivial
  all_goals exact h.elim

namespace Setup

variable {S : Setup Handle World Event} {i : Fin S.workerCount} {sh sh' : Shared World}
  {w w' : Worker Handle} {event : Event} {fault : Option Failure} {s t : S.State}

variable (S) in
def Counted (w : Worker Handle) : Prop := w.Counted S.transport.isDatagram S.endpoint

variable (S) in
def carried (accepted : List (List Bytes)) : Tally :=
  Application.carried S.transport.isDatagram S.endpoint accepted

theorem Leads.drained {pc : WorkerPc} (h : S.Leads i sh w.stopToken fault w.pc pc)
    (hw : w.Drained) : ({ w with pc := pc } : Worker Handle).Drained := by
  unfold Worker.Drained at hw ⊢
  generalize w.pc = before at h hw
  cases h
  all_goals trivial

/-- A step builds a batch exactly, and flushes what it takes off the counters. -/
theorem workerStep_counted (h : S.workerStep i sh w event fault = some (sh', w'))
    (hw : S.Counted w) : S.Counted w' := by
  obtain ⟨hbatch, hpack, hdrained⟩ := hw
  cases moves_of_workerStep h with
  | lead hleads => exact ⟨hbatch, hpack, hleads.drained hdrained⟩
  | connect hpc | start hpc =>
    simp only [Worker.Drained, hpc] at hdrained
    exact ⟨hbatch, hpack, hdrained⟩
  | announce hpc hnext =>
    simp only [Worker.Drained, hpc] at hdrained
    refine ⟨hbatch, hpack, ?_⟩
    rcases hnext with ⟨rfl, _⟩ | ⟨rfl, _⟩
    · exact hdrained
    · exact hdrained
  | render _ hbuild hnext =>
    obtain ⟨hbatch', hpack'⟩ := buildBatch_exact hbuild hpack
    refine ⟨hbatch', hpack', ?_⟩
    rcases hnext with ⟨rfl, _⟩ | ⟨rfl, _⟩
    · trivial
    · trivial
  | sent _ _ _ hnext =>
    refine ⟨hbatch, hpack, ?_⟩
    rcases hnext with rfl | ⟨rfl, _⟩
    · trivial
    · trivial
  | flushMessages => exact ⟨hbatch, hpack, rfl⟩
  | flushDatagrams hpc =>
    simp only [Worker.Drained, hpc] at hdrained
    exact ⟨hbatch, hpack, hdrained, rfl⟩
  | @flushBytes next hpc =>
    simp only [Worker.Drained, hpc] at hdrained
    obtain ⟨hmessages, hdatagrams⟩ := hdrained
    have hlocals : ({ w with localBytes := 0 } : Worker Handle).locals = 0 := by
      simp [Worker.locals, hmessages, hdatagrams]
    refine ⟨hbatch, hpack, ?_⟩
    cases next with
    | loop => trivial
    | leave | complete | fail => exact hlocals
  | publish hpublishes =>
    refine ⟨hbatch, hpack, ?_⟩
    unfold Worker.Drained at hdrained ⊢
    generalize w.pc = before at hpublishes hdrained
    cases hpublishes
    all_goals exact hdrained
  | refuse | reject | complete | fail => exact ⟨hbatch, hpack, trivial⟩

/-- Behind the flush a worker stores neither into the totals nor into the record of the calls. -/
theorem Publishes.frame {pc pc' : WorkerPc} (h : Publishes sh pc sh' pc') :
    sh'.totals = sh.totals ∧ sh'.accepted = sh.accepted ∧ sh'.world = sh.world := by
  cases h
  all_goals exact ⟨rfl, rfl, rfl⟩

/-- `flushed` is what has been added to the totals. -/
theorem workerStep_totals (h : S.workerStep i sh w event fault = some (sh', w'))
    (hw : S.Counted w) {flushed : Tally} (hflushed : sh.totals = flushed.wrapped) :
    ∃ flushed', sh'.totals = flushed'.wrapped ∧
      flushed' + w'.locals + S.carried sh.accepted =
        flushed + w.locals + S.carried sh'.accepted := by
  obtain ⟨hmessages, hdatagrams, hbytes⟩ : sh.totalMessages = flushed.1 % 2 ^ 64 ∧
      sh.totalDatagrams = flushed.2.1 % 2 ^ 64 ∧ sh.totalBytes = flushed.2.2 % 2 ^ 64 := by
    simpa only [Shared.totals, Tally.wrapped, Prod.mk.injEq] using hflushed
  cases moves_of_workerStep h with
  | sent =>
    refine ⟨flushed, hflushed, ?_⟩
    dsimp only
    have hlocals (handle : Handle) (pc : WorkerPc) :
        ({ S.creditBatch i w handle with pc := pc } : Worker Handle).locals =
          w.locals + (w.batch.events, w.batch.datagrams, w.batch.bytes) := rfl
    rw [carried, carried, carried_append _ _ _ _ hw.batch, hlocals]
    abel
  | flushMessages =>
    refine ⟨flushed + (w.localMessages, 0, 0), ?_, congrArg (· + S.carried sh.accepted) ?_⟩
    · simp only [Shared.totals, Tally.wrapped, hmessages, fetchAdd_mod, hdatagrams, hbytes,
        Prod.fst_add, Prod.snd_add, add_zero]
    · rw [add_assoc]
      simp [Worker.locals]
  | flushDatagrams =>
    refine ⟨flushed + (0, w.localDatagrams, 0), ?_, congrArg (· + S.carried sh.accepted) ?_⟩
    · simp only [Shared.totals, Tally.wrapped, hdatagrams, fetchAdd_mod, hmessages, hbytes,
        Prod.fst_add, Prod.snd_add, add_zero]
    · rw [add_assoc]
      simp [Worker.locals]
  | flushBytes =>
    refine ⟨flushed + (0, 0, w.localBytes), ?_, congrArg (· + S.carried sh.accepted) ?_⟩
    · simp only [Shared.totals, Tally.wrapped, hbytes, fetchAdd_mod, hmessages, hdatagrams,
        Prod.fst_add, Prod.snd_add, add_zero]
    · rw [add_assoc]
      simp [Worker.locals]
  | publish hpublishes =>
    obtain ⟨htotals, haccepted, _⟩ := hpublishes.frame
    rw [htotals, haccepted]
    exact ⟨flushed, hflushed, rfl⟩
  | lead | connect | refuse | announce | start | render | reject | complete | fail =>
    exact ⟨flushed, hflushed, rfl⟩

theorem Leads.faults {pc pc' : WorkerPc} (h : S.Leads i sh told fault pc pc') :
    pc.faults = 0 ∧ pc'.faults = 0 := by
  cases h with
  | leave hpc => rcases hpc with rfl | rfl <;> exact ⟨rfl, rfl⟩
  | throw hpc => rcases hpc with rfl | rfl | rfl <;> exact ⟨rfl, rfl⟩
  | _ => exact ⟨rfl, rfl⟩

/-- The workers that have counted an exception are the send errors. -/
theorem workerStep_faults (h : S.workerStep i sh w event fault = some (sh', w')) :
    sh'.sendErrors + w.pc.faults = sh.sendErrors + w'.pc.faults := by
  cases moves_of_workerStep h with
  | lead hleads =>
    obtain ⟨hbefore, hafter⟩ := hleads.faults
    rw [hbefore, hafter]
  | announce hpc hnext | render hpc _ hnext =>
    rw [hpc]
    rcases hnext with ⟨rfl, _⟩ | ⟨rfl, _⟩
    · rfl
    · rfl
  | sent hpc _ _ hnext =>
    rw [hpc]
    rcases hnext with rfl | ⟨rfl, _⟩
    · rfl
    · rfl
  | @flushBytes next hpc =>
    rw [hpc]
    cases next
    all_goals rfl
  | publish hpublishes =>
    generalize w.pc = before at hpublishes
    cases hpublishes
    all_goals rfl
  | connect hpc | refuse hpc | start hpc | reject hpc | complete hpc | fail hpc
  | flushMessages hpc | flushDatagrams hpc =>
    rw [hpc]
    rfl

/-- What the supervisor leaves alone: everything the counters are about, except that it
starts workers. -/
structure SupervisorFrame (s t : S.State) : Prop where
  totals : t.shared.totals = s.shared.totals
  accepted : t.shared.accepted = s.shared.accepted
  sendErrors : t.shared.sendErrors = s.shared.sendErrors
  locals : ∀ i, (t.workers i).locals = (s.workers i).locals
  batch : ∀ i, (t.workers i).batch = (s.workers i).batch
  pack : ∀ i, (t.workers i).pack = (s.workers i).pack
  pc : ∀ i : Fin S.workerCount, (t.workers i).pc = (s.workers i).pc ∨
    s.supervisor.Unspawned i ∧ (t.workers i).pc = .connect
  unspawned : ∀ i : Fin S.workerCount, t.supervisor.Unspawned i →
    s.supervisor.Unspawned i ∧ (t.workers i).pc = (s.workers i).pc

/-- A step that leaves the counters and all workers alone and starts from no earlier position. -/
theorem SupervisorFrame.of_same (htotals : t.shared.totals = s.shared.totals)
    (haccepted : t.shared.accepted = s.shared.accepted)
    (herrors : t.shared.sendErrors = s.shared.sendErrors) (hworkers : t.workers = s.workers)
    (hunspawned : ∀ i : Fin S.workerCount, t.supervisor.Unspawned i → s.supervisor.Unspawned i) :
    SupervisorFrame s t := by
  refine ⟨htotals, haccepted, herrors, ?_, ?_, ?_, ?_, ?_⟩
  all_goals rw [hworkers]
  · exact fun _ => rfl
  · exact fun _ => rfl
  · exact fun _ => rfl
  · exact fun _ => .inl rfl
  · exact fun i hi => ⟨hunspawned i hi, rfl⟩

theorem SupervisorLeads.unspawned {pc pc' : SupervisorPc} {i : Fin S.workerCount}
    (h : S.SupervisorLeads s fault pc pc') (hi : pc'.Unspawned i) : pc.Unspawned i := by
  cases h with
  | prepared | goOn => trivial
  | refuse | stopEarly | unwind | spawned | stop | told | joined | finished | keepFailed | settle
  | unwound | joinedOne => exact hi.elim

theorem supervisorStep_frame (h : S.supervisorStep s fault = some t) : SupervisorFrame s t := by
  cases moves_of_supervisorStep h with
  | lead hleads => exact .of_same rfl rfl rfl rfl fun _ hi => hleads.unspawned hi
  | store hstores =>
    generalize hpc : s.supervisor = before at hstores
    cases hstores
    all_goals exact .of_same rfl rfl rfl rfl fun _ hi => hi.elim
  | @spawn k hpc _ =>
    refine ⟨rfl, rfl, rfl, ?_, ?_, ?_, ?_, ?_⟩
    all_goals dsimp only
    · exact updateWorker_proj Worker.locals (by intro w; rfl)
    · exact updateWorker_proj Worker.batch (by intro w; rfl)
    · exact updateWorker_proj Worker.pack (by intro w; rfl)
    · intro i
      rw [hpc]
      by_cases hik : i.val = k
      · exact .inr ⟨hik.ge, by simp [updateWorker, hik]⟩
      · exact .inl (congrArg Worker.pc (updateWorker_of_ne hik))
    · intro i hi
      have hle : k + 1 ≤ i.val := hi
      have hik : i.val ≠ k := by omega
      rw [hpc]
      exact ⟨(Nat.le_succ k).trans hle, congrArg Worker.pc (updateWorker_of_ne hik)⟩
  | @tell k pc htells =>
    refine ⟨rfl, rfl, rfl, ?_, ?_, ?_, ?_, ?_⟩
    all_goals dsimp only
    · exact updateWorker_proj Worker.locals (by intro w; rfl)
    · exact updateWorker_proj Worker.batch (by intro w; rfl)
    · exact updateWorker_proj Worker.pack (by intro w; rfl)
    · exact fun i => .inl (updateWorker_proj Worker.pc (by intro w; rfl) i)
    · intro i hi
      generalize s.supervisor = before at htells
      cases htells
      all_goals exact hi.elim

/-- The invariant of the counters. -/
structure Conserved (s : S.State) : Prop where
  counted : ∀ i, S.Counted (s.workers i)
  totals : ∃ flushed : Tally, s.shared.totals = flushed.wrapped ∧
    flushed + ∑ i, (s.workers i).locals = S.carried s.shared.accepted
  sendErrors : s.shared.sendErrors = ∑ i, (s.workers i).pc.faults
  unspawned : ∀ i : Fin S.workerCount, s.supervisor.Unspawned i → (s.workers i).pc = .unstarted

theorem conserved_initial : S.Conserved S.initial := by
  refine ⟨?_, ?_, ?_, ?_⟩
  · intro i
    exact ⟨.empty _ _, rfl, rfl⟩
  · have hlocals : ∀ i, (S.initial.workers i).locals = 0 := fun _ => rfl
    refine ⟨0, rfl, ?_⟩
    simp only [hlocals, Finset.sum_const_zero]
    rfl
  · have hfaults : ∀ i, (S.initial.workers i).pc.faults = 0 := fun _ => rfl
    simp only [hfaults, Finset.sum_const_zero]
    rfl
  · intro i _
    rfl

theorem Conserved.supervisorStep (hs : S.Conserved s) (h : S.supervisorStep s fault = some t) :
    S.Conserved t := by
  have hframe := supervisorStep_frame h
  have hpc : ∀ i, (t.workers i).pc = (s.workers i).pc ∨
      (s.workers i).pc = .unstarted ∧ (t.workers i).pc = .connect := by
    intro i
    rcases hframe.pc i with hsame | ⟨hunspawned, hconnect⟩
    · exact .inl hsame
    · exact .inr ⟨hs.unspawned i hunspawned, hconnect⟩
  refine ⟨?_, ?_, ?_, ?_⟩
  · intro i
    obtain ⟨hbatch, hpack, hdrained⟩ := hs.counted i
    refine ⟨?_, ?_, ?_⟩
    · rw [hframe.batch i]
      exact hbatch
    · rw [hframe.pack i]
      exact hpack
    · have hlocals := hframe.locals i
      simp only [Worker.locals, Prod.mk.injEq] at hlocals
      rcases hpc i with hsame | ⟨hunstarted, hconnect⟩
      · simpa only [Worker.Drained, Worker.locals, hsame, hlocals] using hdrained
      · simp only [Worker.Drained, hunstarted] at hdrained
        simp only [Worker.Drained, hconnect]
        rw [hframe.locals i]
        exact hdrained
  · simp only [hframe.totals, hframe.locals, hframe.accepted]
    exact hs.totals
  · have hfaults : ∀ i, (t.workers i).pc.faults = (s.workers i).pc.faults := by
      intro i
      rcases hpc i with hsame | ⟨hunstarted, hconnect⟩
      · rw [hsame]
      · rw [hunstarted, hconnect]
        rfl
    simp only [hframe.sendErrors, hfaults]
    exact hs.sendErrors
  · intro i hi
    obtain ⟨hunspawned, hsame⟩ := hframe.unspawned i hi
    rw [hsame]
    exact hs.unspawned i hunspawned

theorem Conserved.step {a : Action Event S.workerCount} (hs : S.Conserved s)
    (h : S.machine.step s a = some t) : S.Conserved t := by
  cases a with
  | requestStop =>
    cases h
    obtain ⟨hcounted, htotals, herrors, hunspawned⟩ := hs
    cases hclient : s.shared.client
    all_goals refine ⟨hcounted, ?_, ?_, hunspawned⟩
    all_goals simp only [clientStep, hclient]
    all_goals first
      | exact htotals
      | exact herrors
  | supervisor fault => exact hs.supervisorStep h
  | worker i event fault =>
    obtain ⟨⟨sh', w'⟩, hr, rfl⟩ := Option.map_eq_some_iff.mp h
    have hcounted := workerStep_counted hr (hs.counted i)
    have herrors := workerStep_faults hr
    obtain ⟨flushed, hflushed, hsent⟩ := hs.totals
    obtain ⟨flushed', hflushed', htotals⟩ := workerStep_totals hr (hs.counted i) hflushed
    refine ⟨?_, ?_, ?_, ?_⟩
    · intro j
      by_cases hij : j = i
      · subst hij
        simpa using hcounted
      · simpa [Function.update_of_ne hij] using hs.counted j
    · have hsum := sum_update_add s.workers Worker.locals i w'
      refine ⟨flushed', hflushed', ?_⟩
      apply add_right_cancel (b := (s.workers i).locals + S.carried s.shared.accepted)
      calc flushed' + ∑ j, (Function.update s.workers i w' j).locals +
            ((s.workers i).locals + S.carried s.shared.accepted)
          = flushed' + S.carried s.shared.accepted +
              (∑ j, (Function.update s.workers i w' j).locals + (s.workers i).locals) := by abel
        _ = flushed' + w'.locals + S.carried s.shared.accepted +
              ∑ j, (s.workers j).locals := by rw [hsum]; abel
        _ = (s.workers i).locals + S.carried sh'.accepted +
              (flushed + ∑ j, (s.workers j).locals) := by rw [htotals]; abel
        _ = S.carried sh'.accepted + ((s.workers i).locals + S.carried s.shared.accepted) := by
            rw [hsent]; abel
    · have hsum := sum_update_add s.workers (fun w => w.pc.faults) i w'
      have hbefore := hs.sendErrors
      dsimp only at hsum ⊢
      omega
    · intro j hj
      by_cases hij : j = i
      · subst hij
        exact absurd (.inl (hs.unspawned j hj)) (workerStep_not_quiet hr)
      · simpa [Function.update_of_ne hij] using hs.unspawned j hj

theorem conserved_of_reachable (h : S.machine.Reachable s) : S.Conserved s :=
  h.invariant conserved_initial fun _ _ _ hs _ hstep => hs.step hstep

/-- A worker that has ended by an exception. -/
def EndedByException (s : S.State) (i : Fin S.workerCount) : Prop :=
  (s.workers i).pc = .done .exception

instance (s : S.State) : DecidablePred (S.EndedByException s) := fun i =>
  inferInstanceAs (Decidable ((s.workers i).pc = .done .exception))

theorem faults_of_quiet {pc : WorkerPc} (h : pc.Quiet) :
    pc.faults = if pc = .done .exception then 1 else 0 := by
  rcases h with rfl | ⟨exit, rfl⟩
  · rfl
  · cases exit
    · rfl
    · rfl

/-- A one-event-per-datagram run counts as many messages as datagrams. -/
theorem carried_oneEvent (endpoint : EndpointConfig)
    (hpacketization : endpoint.udpPacketization = .oneEventPerDatagram)
    (accepted : List (List Bytes)) :
    (Application.carried true endpoint accepted).1 =
      (Application.carried true endpoint accepted).2.1 := by
  induction accepted with
  | nil => rfl
  | cons views accepted ih =>
    have hviews : carriedEvents true endpoint views = carriedDatagrams true views := by
      simp [carriedEvents, carriedDatagrams, hpacketization]
    simp only [Application.carried, List.map_cons, List.sum_cons, Prod.fst_add, Prod.snd_add] at ih ⊢
    rw [ih, hviews]

theorem totals_le_carried (hs : S.Conserved s) : s.shared.totals ≤ S.carried s.shared.accepted := by
  obtain ⟨flushed, hflushed, hsent⟩ := hs.totals
  rw [hflushed, ← hsent]
  exact flushed.wrapped_le.trans ⟨Nat.le_add_right _ _, Nat.le_add_right _ _, Nat.le_add_right _ _⟩

theorem totals_of_joined (hs : S.machine.Reachable s) (hjoined : s.supervisor.Joined) :
    s.shared.totals = (S.carried s.shared.accepted).wrapped := by
  have hconserved := conserved_of_reachable hs
  have hquiet : ∀ i, (s.workers i).pc.Quiet := fun i =>
    settled_of_reachable hs i (hjoined.settles i)
  obtain ⟨flushed, hflushed, hsent⟩ := hconserved.totals
  simp only [(hconserved.counted _).drained.of_quiet (hquiet _), Finset.sum_const_zero,
    add_zero] at hsent
  rw [hflushed, hsent]

variable (S) in
/-- The totals never exceed what the accepted calls carried; once the supervisor has joined
the workers they are equal to it, unless a 64-bit counter has wrapped, and the send errors
count the workers that ended by an exception. -/
theorem totals_exact (s : S.State) (hs : S.machine.Reachable s) :
    s.shared.totals ≤ S.carried s.shared.accepted ∧
    (s.supervisor.Joined →
      s.shared.totals = (S.carried s.shared.accepted).wrapped ∧
      ((S.carried s.shared.accepted).Fits → s.shared.totals = S.carried s.shared.accepted) ∧
      s.shared.sendErrors = (Finset.univ.filter (S.EndedByException s)).card ∧
      (S.transport.isDatagram = true → S.endpoint.udpPacketization = .oneEventPerDatagram →
        s.shared.totalMessages = s.shared.totalDatagrams)) := by
  have hconserved := conserved_of_reachable hs
  constructor
  · exact totals_le_carried hconserved
  · intro hjoined
    have hquiet : ∀ i, (s.workers i).pc.Quiet := fun i =>
      settled_of_reachable hs i (hjoined.settles i)
    have htotals := totals_of_joined hs hjoined
    refine ⟨htotals, fun hfits => htotals.trans (Tally.wrapped_of_fits hfits), ?_, ?_⟩
    · rw [hconserved.sendErrors, Finset.card_filter]
      exact Finset.sum_congr rfl fun i _ => faults_of_quiet (hquiet i)
    · intro hdatagram hpacketization
      have hcarried := carried_oneEvent S.endpoint hpacketization s.shared.accepted
      rw [← hdatagram] at hcarried
      have hmessages : s.shared.totalMessages = (S.carried s.shared.accepted).1 % 2 ^ 64 :=
        congrArg Prod.fst htotals
      have hdatagrams : s.shared.totalDatagrams = (S.carried s.shared.accepted).2.1 % 2 ^ 64 :=
        congrArg (fun t : Tally => t.2.1) htotals
      rw [hmessages, hdatagrams]
      exact congrArg (· % 2 ^ 64) hcarried

/-- Two workers that send datagrams; the event says whether the system accepts one. -/
def paired : Setup Unit Unit Bool where
  endpoint := {}
  targetEps := 0
  workerCount := 2
  transport :=
    { connect := fun _ _ _ => (.ok (), ())
      send := fun _ _ _ accepts => (if accepts then .ok .sent else .error .unknown, (), ())
      sendBatch := fun _ _ _ accepts => (if accepts then .ok .sent else .error .unknown, (), ())
      isDatagram := true
      preferredBatchSize := 1 }
  payload := fun _ _ => bytes "up"
  world := ()

/-- The workers of a run on two. -/
def firstWorker : Fin 2 := 0

def secondWorker : Fin 2 := 1

/-- The first worker sends two datagrams; the second is refused its first, which ends the run. -/
def secondRefused : List (Action Bool 2) :=
  List.replicate 5 (.supervisor none) ++ List.replicate 2 (.worker firstWorker true none) ++
    List.replicate 5 (.worker secondWorker true none) ++
    List.replicate 14 (.worker firstWorker true none) ++
    List.replicate 4 (.worker secondWorker true none) ++
    List.replicate 8 (.worker secondWorker false none) ++ List.replicate 4 (.supervisor none) ++
    List.replicate 4 (.worker firstWorker true none) ++ List.replicate 3 (.supervisor none)

theorem totals_exact_secondRefused :
    ∃ s, paired.machine.exec paired.initial secondRefused = some s ∧
      s.shared.accepted = [[bytes "up"], [bytes "up"]] ∧ s.shared.totals = (2, 2, 4) ∧
      s.shared.totals = paired.carried s.shared.accepted ∧ s.shared.sendErrors = 1 ∧
      s.shared.sendErrors = (Finset.univ.filter (paired.EndedByException s)).card := by
  obtain ⟨s, hrun, haccepted, htotals, herrors, hjoined⟩ : ∃ s,
      paired.machine.exec paired.initial secondRefused = some s ∧
      s.shared.accepted = [[bytes "up"], [bytes "up"]] ∧ s.shared.totals = (2, 2, 4) ∧
      s.shared.sendErrors = 1 ∧ s.supervisor.Joined := ⟨_, rfl, rfl, rfl, rfl, trivial⟩
  obtain ⟨_, hend⟩ := totals_exact paired s (Machine.reachable_of_exec hrun)
  obtain ⟨_, hcarried, hcard, _⟩ := hend hjoined
  have hfits : (paired.carried s.shared.accepted).Fits := by
    rw [haccepted]
    exact ⟨by decide, by decide, by decide⟩
  exact ⟨s, hrun, haccepted, htotals, hcarried hfits, herrors, hcard⟩

end Setup
end Application
end LogGenerator
