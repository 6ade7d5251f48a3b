import LogGenerator.Application.SendLoops
import LogGenerator.Foundation.Machine
import LogGenerator.Foundation.Overflow

/-!
# One run of the stress test service

The run begun by `start`: the supervisor thread, the workers it starts and any
number of `request_stop` calls, interleaved at each access to a shared variable.
Two things are folded. A `request_stop` call holds `lifecycle_mutex_` from its
first step to its last, so one slot, `client`, stands for whichever call is
inside; a critical section that touches nothing modelled is one step. Pacing and
sleeping take a step that may come at any time. The three totals are 64-bit
counters and wrap.
-/

namespace LogGenerator
namespace Application

open Domain

/-- Where the `request_stop` call that holds `lifecycle_mutex_` is. -/
inductive ClientPc where
  | idle | loadState | storeStopping | requestStop
  deriving DecidableEq

inductive WorkerExit where
  | returned | exception
  deriving DecidableEq

/-- Where a worker goes once its three counters are flushed. -/
inductive AfterFlush where
  | loop
  | leave
  | complete (result : SendResult)
  | fail (failure : Failure)
  deriving DecidableEq

inductive WorkerPc where
  | unstarted
  | connect | announce | markStarted | openGate
  | awaitGate | awaitState | checkGate
  | enterLoop | loopTest | render | pace | paceTest | send
  | flushMessages (next : AfterFlush)
  | flushDatagrams (next : AfterFlush)
  | flushBytes (next : AfterFlush)
  | setStatus (result : SendResult)
  | completionLoad | completionStore | completionStop
  | countError (failure : Failure)
  | setError (failure : Failure)
  | storeFailed | errorStop
  | done (exit : WorkerExit)
  deriving DecidableEq

/-- Where a worker is behind its flush. -/
def AfterFlush.place : AfterFlush → WorkerPc
  | .loop => .loopTest
  | .leave => .done .returned
  | .complete result => .setStatus result
  | .fail failure => .countError failure

/-- `unwind` destroys the threads already started when an exception leaves the
block that starts them: `k` of `n` are gone. -/
inductive SupervisorPc where
  | prepare | stopTest | storeEarlyStopped
  | spawn (k : ℕ)
  | awaitStop
  | stopWorkers (k : ℕ)
  | join | markFinished | loadState | storeStopped
  | unwind (k n : ℕ) (failure : Failure)
  | unwindJoin (k n : ℕ) (failure : Failure)
  | setError (failure : Failure)
  | storeFailed | errorStop
  | returned
  deriving DecidableEq

/-- The members of the service, and a record of the calls that returned `Sent`. -/
structure Shared (World : Type) where
  state : GeneratorState := .connecting
  stopRequested : Bool := false
  client : ClientPc := .idle
  connectedWorkers : ℕ := 0
  totalMessages : ℕ := 0
  totalDatagrams : ℕ := 0
  totalBytes : ℕ := 0
  sendErrors : ℕ := 0
  lastError : Bytes := []
  statusMessage : Bytes := []
  world : World
  accepted : List (List Bytes) := []

/-- The locals of `run_worker`; `stopToken` is that of the worker's own thread. -/
structure Worker (Handle : Type) where
  pc : WorkerPc := .unstarted
  stopToken : Bool := false
  localMessages : ℕ := 0
  localDatagrams : ℕ := 0
  localBytes : ℕ := 0
  pack : PackState := {}
  batch : Batch := {}
  handle : Option Handle := none

/-- `payload i k` is the `k`-th payload worker `i` renders. -/
structure Setup (Handle World Event : Type) where
  endpoint : EndpointConfig
  targetEps : ℕ
  workerCount : ℕ
  transport : Transport Handle World Event
  payload : Fin workerCount → ℕ → Bytes
  world : World

structure Service (Handle World : Type) (workerCount : ℕ) where
  shared : Shared World
  supervisor : SupervisorPc := .prepare
  workers : Fin workerCount → Worker Handle := fun _ => {}

/-- Whose next step it is, and what the environment decides in it. -/
inductive Action (Event : Type) (workerCount : ℕ) where
  | requestStop
  | supervisor (fault : Option Failure)
  | worker (i : Fin workerCount) (event : Event) (fault : Option Failure)

variable {Handle World Event : Type}

/-- `request_stop`: the call takes the lock and finds the supervisor joinable, loads
the state, stores `Stopping` unless it read `Failed`, and requests the stop. -/
def clientStep (sh : Shared World) : Shared World :=
  match sh.client with
  | .idle => { sh with client := .loadState }
  | .loadState =>
    { sh with client := if sh.state = .failed then .requestStop else .storeStopping }
  | .storeStopping => { sh with state := .stopping, client := .requestStop }
  | .requestStop => { sh with stopRequested := true, client := .idle }

/-- The message kept by `publish_error`: the first one wins. -/
def keepError (lastError message : Bytes) : Bytes := if lastError = [] then message else lastError

namespace Setup

variable (S : Setup Handle World Event)

def quota (i : Fin S.workerCount) : ℕ := quotaForWorker S.targetEps i S.workerCount

def loop (i : Fin S.workerCount) : SendLoop :=
  sendLoop S.endpoint (S.quota i) S.transport.isDatagram S.transport.preferredBatchSize

/-- The single-event loop paces before it renders. -/
def pacesFirst (i : Fin S.workerCount) : Bool :=
  match S.loop i with
  | .single => true
  | _ => false

/-- `send_batch` for the two loops that keep several views, else `send`. -/
def transmit (i : Fin S.workerCount) (handle : Handle) (world : World) (views : List Bytes)
    (event : Event) : Except Failure SendResult × Handle × World :=
  match S.loop i with
  | .packed | .batched _ => S.transport.sendBatch handle world views event
  | .single | .stream _ _ => S.transport.send handle world (views.headD []) event

def flushDue (i : Fin S.workerCount) (localMessages : ℕ) : Bool :=
  (match S.loop i with
    | .stream _ _ => decide (S.endpoint.protocol = .file)
    | _ => false) || statisticsPublishEvents (S.quota i) ≤ localMessages

/-- The counters after a call that returned `Sent`. -/
def creditBatch (i : Fin S.workerCount) (w : Worker Handle) (handle : Handle) : Worker Handle :=
  { w with
    localMessages := w.localMessages + w.batch.events
    localDatagrams := w.localDatagrams + w.batch.datagrams
    localBytes := w.localBytes + w.batch.bytes
    handle := some handle
    pc := if S.flushDue i (w.localMessages + w.batch.events) then .flushMessages .loop
      else .loopTest }

/-- A step of `run_worker`; `none` when the worker is blocked or has ended. -/
def workerStep (i : Fin S.workerCount) (sh : Shared World) (w : Worker Handle) (event : Event)
    (fault : Option Failure) : Option (Shared World × Worker Handle) :=
  match w.pc with
  | .unstarted => none
  | .connect =>
    match fault with
    | some failure => some (sh, { w with pc := .flushMessages (.fail failure) })
    | none =>
      match S.transport.connect S.endpoint sh.world event with
      | (.ok handle, world) =>
        some ({ sh with world := world }, { w with pc := .announce, handle := some handle })
      | (.error failure, world) =>
        some ({ sh with world := world }, { w with pc := .flushMessages (.fail failure) })
  | .announce =>
    some ({ sh with connectedWorkers := sh.connectedWorkers + 1 },
      { w with
        pc := if sh.connectedWorkers + 1 = S.workerCount then .markStarted else .awaitGate })
  | .markStarted =>
    if sh.client = .idle then some (sh, { w with pc := .openGate }) else none
  | .openGate =>
    if sh.state = .connecting then
      some ({ sh with state := .running }, { w with pc := .enterLoop })
    else some (sh, { w with pc := .done .returned })
  | .awaitGate => some (sh, { w with pc := if w.stopToken then .checkGate else .awaitState })
  | .awaitState =>
    some (sh, { w with pc := if sh.state = .connecting then .awaitGate else .checkGate })
  | .checkGate =>
    some (sh, { w with pc := if sh.state = .running then .enterLoop else .done .returned })
  | .enterLoop =>
    match fault with
    | some failure => some (sh, { w with pc := .flushMessages (.fail failure) })
    | none => some (sh, { w with pc := .loopTest })
  | .loopTest =>
    some (sh, { w with
      pc := if w.stopToken then .flushMessages .leave
        else if S.pacesFirst i then .pace else .render })
  | .render =>
    match fault with
    | some failure => some (sh, { w with pc := .flushMessages (.fail failure) })
    | none =>
      match buildBatch (S.loop i) (S.payload i) S.endpoint.framing (S.quota i) w.pack with
      | .error what =>
        some (sh, { w with pc := .flushMessages (.fail (.exception (bytes what))) })
      | .ok (batch, pack) =>
        some (sh, { w with
          batch := batch
          pack := pack
          pc := if S.pacesFirst i then .send else .pace })
  | .pace => some (sh, { w with pc := .paceTest })
  | .paceTest =>
    some (sh, { w with
      pc := if w.stopToken then .flushMessages .leave
        else if S.pacesFirst i then .render else .send })
  | .send =>
    match w.handle with
    | none => none
    | some handle =>
      match S.transmit i handle sh.world w.batch.views event with
      | (.ok .sent, handle, world) =>
        some ({ sh with world := world, accepted := sh.accepted ++ [w.batch.views] },
          S.creditBatch i w handle)
      | (.ok result, handle, world) =>
        some ({ sh with world := world },
          { w with handle := some handle, pc := .flushMessages (.complete result) })
      | (.error failure, handle, world) =>
        some ({ sh with world := world },
          { w with handle := some handle, pc := .flushMessages (.fail failure) })
  | .flushMessages next =>
    some ({ sh with totalMessages := fetchAdd sh.totalMessages w.localMessages },
      { w with localMessages := 0, pc := .flushDatagrams next })
  | .flushDatagrams next =>
    some ({ sh with totalDatagrams := fetchAdd sh.totalDatagrams w.localDatagrams },
      { w with localDatagrams := 0, pc := .flushBytes next })
  | .flushBytes next =>
    some ({ sh with totalBytes := fetchAdd sh.totalBytes w.localBytes },
      { w with
        localBytes := 0
        pc := match next with
          | .loop => .loopTest
          | .leave => .done .returned
          | .complete result => .setStatus result
          | .fail failure => .countError failure })
  | .setStatus result =>
    some ({ sh with statusMessage := completionMessage result }, { w with pc := .completionLoad })
  | .completionLoad =>
    some (sh, { w with pc := if sh.state = .failed then .completionStop else .completionStore })
  | .completionStore => some ({ sh with state := .stopping }, { w with pc := .completionStop })
  | .completionStop =>
    some ({ sh with stopRequested := true }, { w with pc := .done .returned })
  | .countError failure =>
    some ({ sh with sendErrors := sh.sendErrors + 1 }, { w with pc := .setError failure })
  | .setError failure =>
    some ({ sh with
      lastError := keepError sh.lastError
        (failure.message (bytes "Unknown transmission failure")) },
      { w with pc := .storeFailed })
  | .storeFailed => some ({ sh with state := .failed }, { w with pc := .errorStop })
  | .errorStop => some ({ sh with stopRequested := true }, { w with pc := .done .exception })
  | .done _ => none

/-- The steps of a worker that do nothing but lead to its next place. -/
inductive Leads (i : Fin S.workerCount) (sh : Shared World) (told : Bool)
    (fault : Option Failure) : WorkerPc → WorkerPc → Prop
  | openGate (h : sh.client = .idle) : Leads i sh told fault .markStarted .openGate
  | missGate (h : sh.state ≠ .connecting) : Leads i sh told fault .openGate (.done .returned)
  | readState (h : told = false) : Leads i sh told fault .awaitGate .awaitState
  | stopWaiting (h : told = true) : Leads i sh told fault .awaitGate .checkGate
  | wait (h : sh.state = .connecting) : Leads i sh told fault .awaitState .awaitGate
  | checkGate (h : sh.state ≠ .connecting) : Leads i sh told fault .awaitState .checkGate
  | passGate (h : sh.state = .running) : Leads i sh told fault .checkGate .enterLoop
  | turnBack (h : sh.state ≠ .running) : Leads i sh told fault .checkGate (.done .returned)
  | enterLoop (h : fault = none) : Leads i sh told fault .enterLoop .loopTest
  | render (h : told = false) (hpaces : S.pacesFirst i = false) :
      Leads i sh told fault .loopTest .render
  | paceFirst (h : told = false) (hpaces : S.pacesFirst i = true) :
      Leads i sh told fault .loopTest .pace
  | pace : Leads i sh told fault .pace .paceTest
  | renderPaced (h : told = false) (hpaces : S.pacesFirst i = true) :
      Leads i sh told fault .paceTest .render
  | send (h : told = false) (hpaces : S.pacesFirst i = false) :
      Leads i sh told fault .paceTest .send
  | leave {pc : WorkerPc} (hpc : pc = .loopTest ∨ pc = .paceTest) (h : told = true) :
      Leads i sh told fault pc (.flushMessages .leave)
  | throw {pc : WorkerPc} {failure : Failure} (hpc : pc = .connect ∨ pc = .enterLoop ∨ pc = .render)
      (h : fault = some failure) : Leads i sh told fault pc (.flushMessages (.fail failure))
  | store (h : sh.state ≠ .failed) : Leads i sh told fault .completionLoad .completionStore
  | skipStore (h : sh.state = .failed) : Leads i sh told fault .completionLoad .completionStop

/-- The steps behind the flush that store into a member of the service. -/
inductive Publishes (sh : Shared World) : WorkerPc → Shared World → WorkerPc → Prop
  | setStatus (result : SendResult) : Publishes sh (.setStatus result)
      { sh with statusMessage := completionMessage result } .completionLoad
  | completionStore : Publishes sh .completionStore { sh with state := .stopping } .completionStop
  | completionStop :
      Publishes sh .completionStop { sh with stopRequested := true } (.done .returned)
  | countError (failure : Failure) : Publishes sh (.countError failure)
      { sh with sendErrors := sh.sendErrors + 1 } (.setError failure)
  | setError (failure : Failure) : Publishes sh (.setError failure)
      { sh with
        lastError := keepError sh.lastError
          (failure.message (bytes "Unknown transmission failure")) } .storeFailed
  | storeFailed : Publishes sh .storeFailed { sh with state := .failed } .errorStop
  | errorStop : Publishes sh .errorStop { sh with stopRequested := true } (.done .exception)

/-- What a step of a worker can do. -/
inductive Moves (i : Fin S.workerCount) (sh : Shared World) (w : Worker Handle) (event : Event)
    (fault : Option Failure) : Shared World → Worker Handle → Prop
  | lead {pc : WorkerPc} (h : S.Leads i sh w.stopToken fault w.pc pc) :
      Moves i sh w event fault sh { w with pc := pc }
  | connect {handle : Handle} {world : World} (hpc : w.pc = .connect)
      (h : S.transport.connect S.endpoint sh.world event = (.ok handle, world)) :
      Moves i sh w event fault { sh with world := world }
        { w with pc := .announce, handle := some handle }
  | refuse {failure : Failure} {world : World} (hpc : w.pc = .connect)
      (h : S.transport.connect S.endpoint sh.world event = (.error failure, world)) :
      Moves i sh w event fault { sh with world := world }
        { w with pc := .flushMessages (.fail failure) }
  | announce {pc : WorkerPc} (hpc : w.pc = .announce)
      (h : pc = .markStarted ∧ sh.connectedWorkers + 1 = S.workerCount ∨
        pc = .awaitGate ∧ sh.connectedWorkers + 1 ≠ S.workerCount) :
      Moves i sh w event fault { sh with connectedWorkers := sh.connectedWorkers + 1 }
        { w with pc := pc }
  | start (hpc : w.pc = .openGate) (h : sh.state = .connecting) :
      Moves i sh w event fault { sh with state := .running } { w with pc := .enterLoop }
  | render {batch : Batch} {pack : PackState} {pc : WorkerPc} (hpc : w.pc = .render)
      (h : buildBatch (S.loop i) (S.payload i) S.endpoint.framing (S.quota i) w.pack =
        .ok (batch, pack))
      (hnext : pc = .send ∧ S.pacesFirst i = true ∨ pc = .pace ∧ S.pacesFirst i = false) :
      Moves i sh w event fault sh { w with batch := batch, pack := pack, pc := pc }
  | reject {what : String} (hpc : w.pc = .render)
      (h : buildBatch (S.loop i) (S.payload i) S.endpoint.framing (S.quota i) w.pack =
        .error what) :
      Moves i sh w event fault sh
        { w with pc := .flushMessages (.fail (.exception (bytes what))) }
  | sent {handle handle' : Handle} {world : World} {pc : WorkerPc} (hpc : w.pc = .send)
      (hhandle : w.handle = some handle)
      (h : S.transmit i handle sh.world w.batch.views event = (.ok .sent, handle', world))
      (hnext : pc = .flushMessages .loop ∨
        pc = .loopTest ∧ S.flushDue i (w.localMessages + w.batch.events) = false) :
      Moves i sh w event fault
        { sh with world := world, accepted := sh.accepted ++ [w.batch.views] }
        { S.creditBatch i w handle' with pc := pc }
  | complete {handle handle' : Handle} {world : World} {result : SendResult} (hpc : w.pc = .send)
      (hhandle : w.handle = some handle)
      (h : S.transmit i handle sh.world w.batch.views event = (.ok result, handle', world))
      (hresult : result ≠ .sent) :
      Moves i sh w event fault { sh with world := world }
        { w with handle := some handle', pc := .flushMessages (.complete result) }
  | fail {handle handle' : Handle} {world : World} {failure : Failure} (hpc : w.pc = .send)
      (hhandle : w.handle = some handle)
      (h : S.transmit i handle sh.world w.batch.views event = (.error failure, handle', world)) :
      Moves i sh w event fault { sh with world := world }
        { w with handle := some handle', pc := .flushMessages (.fail failure) }
  | flushMessages {next : AfterFlush} (hpc : w.pc = .flushMessages next) :
      Moves i sh w event fault
        { sh with totalMessages := fetchAdd sh.totalMessages w.localMessages }
        { w with localMessages := 0, pc := .flushDatagrams next }
  | flushDatagrams {next : AfterFlush} (hpc : w.pc = .flushDatagrams next) :
      Moves i sh w event fault
        { sh with totalDatagrams := fetchAdd sh.totalDatagrams w.localDatagrams }
        { w with localDatagrams := 0, pc := .flushBytes next }
  | flushBytes {next : AfterFlush} (hpc : w.pc = .flushBytes next) :
      Moves i sh w event fault
        { sh with totalBytes := fetchAdd sh.totalBytes w.localBytes }
        { w with localBytes := 0, pc := next.place }
  | publish {sh' : Shared World} {pc : WorkerPc} (h : Publishes sh w.pc sh' pc) :
      Moves i sh w event fault sh' { w with pc := pc }

variable {S} in
theorem moves_of_workerStep {i : Fin S.workerCount} {sh sh' : Shared World} {w w' : Worker Handle}
    {event : Event} {fault : Option Failure}
    (h : S.workerStep i sh w event fault = some (sh', w')) : S.Moves i sh w event fault sh' w' := by
  have lead {pc pc' : WorkerPc} (hpc : w.pc = pc) (hleads : S.Leads i sh w.stopToken fault pc pc') :
      S.Moves i sh w event fault sh { w with pc := pc' } := .lead (hpc ▸ hleads)
  have publish {pc pc' : WorkerPc} {sh' : Shared World} (hpc : w.pc = pc)
      (hpublishes : Publishes sh pc sh' pc') :
      S.Moves i sh w event fault sh' { w with pc := pc' } := .publish (hpc ▸ hpublishes)
  cases hpc : w.pc
  all_goals simp only [workerStep, hpc] at h
  case unstarted | done => cases h
  case connect =>
    split at h
    · cases h
      exact lead hpc (.throw (.inl rfl) rfl)
    · split at h
      · rename_i hconnect
        cases h
        exact .connect hpc hconnect
      · rename_i hconnect
        cases h
        exact .refuse hpc hconnect
  case announce =>
    cases h
    apply Moves.announce hpc
    split_ifs with hall
    · exact .inl ⟨rfl, hall⟩
    · exact .inr ⟨rfl, hall⟩
  case markStarted =>
    split_ifs at h with hidle
    cases h
    exact lead hpc (.openGate hidle)
  case openGate =>
    split_ifs at h with hstate
    · cases h
      exact .start hpc hstate
    · cases h
      exact lead hpc (.missGate hstate)
  case awaitGate =>
    cases h
    apply lead hpc
    split_ifs with htold
    · exact .stopWaiting htold
    · exact .readState (Bool.eq_false_of_not_eq_true htold)
  case awaitState =>
    cases h
    apply lead hpc
    split_ifs with hstate
    · exact .wait hstate
    · exact .checkGate hstate
  case checkGate =>
    cases h
    apply lead hpc
    split_ifs with hstate
    · exact .passGate hstate
    · exact .turnBack hstate
  case enterLoop =>
    split at h
    · cases h
      exact lead hpc (.throw (.inr (.inl rfl)) rfl)
    · cases h
      exact lead hpc (.enterLoop rfl)
  case loopTest =>
    cases h
    apply lead hpc
    split_ifs with htold hpaces
    · exact .leave (.inl rfl) htold
    · exact .paceFirst (Bool.eq_false_of_not_eq_true htold) hpaces
    · exact .render (Bool.eq_false_of_not_eq_true htold) (Bool.eq_false_of_not_eq_true hpaces)
  case render =>
    split at h
    · cases h
      exact lead hpc (.throw (.inr (.inr rfl)) rfl)
    · split at h
      · rename_i hbuild
        cases h
        exact .reject hpc hbuild
      · rename_i hbuild
        cases h
        apply Moves.render hpc hbuild
        split_ifs with hpaces
        · exact .inl ⟨rfl, hpaces⟩
        · exact .inr ⟨rfl, Bool.eq_false_of_not_eq_true hpaces⟩
  case pace =>
    cases h
    exact lead hpc .pace
  case paceTest =>
    cases h
    apply lead hpc
    split_ifs with htold hpaces
    · exact .leave (.inr rfl) htold
    · exact .renderPaced (Bool.eq_false_of_not_eq_true htold) hpaces
    · exact .send (Bool.eq_false_of_not_eq_true htold) (Bool.eq_false_of_not_eq_true hpaces)
  case send =>
    split at h
    · cases h
    · rename_i handle hhandle
      split at h
      · rename_i hsend
        cases h
        apply Moves.sent hpc hhandle hsend
        split_ifs with hdue
        · exact .inl rfl
        · exact .inr ⟨rfl, Bool.eq_false_of_not_eq_true hdue⟩
      · rename_i hresult hsend
        cases h
        exact .complete hpc hhandle hsend hresult
      · rename_i hsend
        cases h
        exact .fail hpc hhandle hsend
  case flushMessages next =>
    cases h
    exact .flushMessages hpc
  case flushDatagrams next =>
    cases h
    exact .flushDatagrams hpc
  case flushBytes next =>
    cases h
    exact .flushBytes hpc
  case completionLoad =>
    cases h
    apply lead hpc
    split_ifs with hstate
    · exact .skipStore hstate
    · exact .store hstate
  case setStatus result =>
    cases h
    exact publish hpc (.setStatus result)
  case completionStore =>
    cases h
    exact publish hpc .completionStore
  case completionStop =>
    cases h
    exact publish hpc .completionStop
  case countError failure =>
    cases h
    exact publish hpc (.countError failure)
  case setError failure =>
    cases h
    exact publish hpc (.setError failure)
  case storeFailed =>
    cases h
    exact publish hpc .storeFailed
  case errorStop =>
    cases h
    exact publish hpc .errorStop

abbrev State := Service Handle World S.workerCount

def updateWorker (s : S.State) (k : ℕ) (f : Worker Handle → Worker Handle) : S.State :=
  { s with workers := fun i => if i.val = k then f (s.workers i) else s.workers i }

def allDone (s : S.State) : Bool :=
  decide (∀ i, (s.workers i).pc = .done .returned ∨ (s.workers i).pc = .done .exception)

def workerDone (s : S.State) (k : ℕ) : Bool :=
  decide (∀ i : Fin S.workerCount, i.val = k →
    (s.workers i).pc = .done .returned ∨ (s.workers i).pc = .done .exception)

/-- A step of `run_supervisor`; `none` when it waits or has returned. -/
def supervisorStep (s : S.State) (fault : Option Failure) : Option S.State :=
  match s.supervisor with
  | .prepare =>
    match fault with
    | some failure => some { s with supervisor := .setError failure }
    | none => some { s with supervisor := .stopTest }
  | .stopTest =>
    some { s with
      supervisor := if s.shared.stopRequested then .storeEarlyStopped else .spawn 0 }
  | .storeEarlyStopped =>
    some { s with shared := { s.shared with state := .stopped }, supervisor := .returned }
  | .spawn k =>
    match fault with
    | some failure => some { s with supervisor := .unwind 0 k failure }
    | none =>
      if k < S.workerCount then
        some { S.updateWorker s k (fun w => { w with pc := .connect }) with
          supervisor := .spawn (k + 1) }
      else some { s with supervisor := .awaitStop }
  | .awaitStop =>
    if s.shared.stopRequested then some { s with supervisor := .stopWorkers 0 } else none
  | .stopWorkers k =>
    if k < S.workerCount then
      some { S.updateWorker s k (fun w => { w with stopToken := true }) with
        supervisor := .stopWorkers (k + 1) }
    else some { s with supervisor := .join }
  | .join => if S.allDone s then some { s with supervisor := .markFinished } else none
  | .markFinished =>
    if s.shared.client = .idle then some { s with supervisor := .loadState } else none
  | .loadState =>
    some { s with
      supervisor := if s.shared.state = .failed then .returned else .storeStopped }
  | .storeStopped =>
    some { s with shared := { s.shared with state := .stopped }, supervisor := .returned }
  | .unwind k n failure =>
    if k < n then
      some { S.updateWorker s k (fun w => { w with stopToken := true }) with
        supervisor := .unwindJoin k n failure }
    else some { s with supervisor := .setError failure }
  | .unwindJoin k n failure =>
    if S.workerDone s k then some { s with supervisor := .unwind (k + 1) n failure } else none
  | .setError failure =>
    some { s with
      shared := { s.shared with
        lastError := keepError s.shared.lastError
          (failure.message (bytes "Unknown worker initialization failure")) }
      supervisor := .storeFailed }
  | .storeFailed =>
    some { s with shared := { s.shared with state := .failed }, supervisor := .errorStop }
  | .errorStop =>
    some { s with shared := { s.shared with stopRequested := true }, supervisor := .returned }
  | .returned => none

/-- The steps of the supervisor that do nothing but lead to its next place. -/
inductive SupervisorLeads (s : S.State) (fault : Option Failure) :
    SupervisorPc → SupervisorPc → Prop
  | refuse {failure : Failure} (h : fault = some failure) :
      SupervisorLeads s fault .prepare (.setError failure)
  | prepared (h : fault = none) : SupervisorLeads s fault .prepare .stopTest
  | stopEarly (h : s.shared.stopRequested = true) :
      SupervisorLeads s fault .stopTest .storeEarlyStopped
  | goOn (h : s.shared.stopRequested = false) : SupervisorLeads s fault .stopTest (.spawn 0)
  | unwind {k : ℕ} {failure : Failure} (h : fault = some failure) :
      SupervisorLeads s fault (.spawn k) (.unwind 0 k failure)
  | spawned {k : ℕ} (h : S.workerCount ≤ k) : SupervisorLeads s fault (.spawn k) .awaitStop
  | stop (h : s.shared.stopRequested = true) :
      SupervisorLeads s fault .awaitStop (.stopWorkers 0)
  | told {k : ℕ} (h : S.workerCount ≤ k) : SupervisorLeads s fault (.stopWorkers k) .join
  | joined (h : S.allDone s = true) : SupervisorLeads s fault .join .markFinished
  | finished (h : s.shared.client = .idle) : SupervisorLeads s fault .markFinished .loadState
  | keepFailed (h : s.shared.state = .failed) : SupervisorLeads s fault .loadState .returned
  | settle (h : s.shared.state ≠ .failed) : SupervisorLeads s fault .loadState .storeStopped
  | unwound {k n : ℕ} {failure : Failure} (h : n ≤ k) :
      SupervisorLeads s fault (.unwind k n failure) (.setError failure)
  | joinedOne {k n : ℕ} {failure : Failure} (h : S.workerDone s k = true) :
      SupervisorLeads s fault (.unwindJoin k n failure) (.unwind (k + 1) n failure)

/-- The steps of the supervisor that store into a member of the service. -/
inductive SupervisorStores (sh : Shared World) : SupervisorPc → Shared World → SupervisorPc → Prop
  | earlyStopped :
      SupervisorStores sh .storeEarlyStopped { sh with state := .stopped } .returned
  | stopped : SupervisorStores sh .storeStopped { sh with state := .stopped } .returned
  | setError (failure : Failure) : SupervisorStores sh (.setError failure)
      { sh with
        lastError := keepError sh.lastError
          (failure.message (bytes "Unknown worker initialization failure")) } .storeFailed
  | storeFailed : SupervisorStores sh .storeFailed { sh with state := .failed } .errorStop
  | errorStop : SupervisorStores sh .errorStop { sh with stopRequested := true } .returned

/-- The steps of the supervisor that request one worker to stop. -/
inductive SupervisorTells : SupervisorPc → ℕ → SupervisorPc → Prop
  | stop {k : ℕ} (h : k < S.workerCount) :
      SupervisorTells (.stopWorkers k) k (.stopWorkers (k + 1))
  | unwind {k n : ℕ} {failure : Failure} (h : k < n) :
      SupervisorTells (.unwind k n failure) k (.unwindJoin k n failure)

/-- What a step of the supervisor can do. -/
inductive SupervisorMoves (s : S.State) (fault : Option Failure) : S.State → Prop
  | lead {pc : SupervisorPc} (h : S.SupervisorLeads s fault s.supervisor pc) :
      SupervisorMoves s fault { s with supervisor := pc }
  | store {sh : Shared World} {pc : SupervisorPc}
      (h : SupervisorStores s.shared s.supervisor sh pc) :
      SupervisorMoves s fault { s with shared := sh, supervisor := pc }
  | spawn {k : ℕ} (hpc : s.supervisor = .spawn k) (h : k < S.workerCount) :
      SupervisorMoves s fault { S.updateWorker s k (fun w => { w with pc := .connect }) with
        supervisor := .spawn (k + 1) }
  | tell {k : ℕ} {pc : SupervisorPc} (h : S.SupervisorTells s.supervisor k pc) :
      SupervisorMoves s fault { S.updateWorker s k (fun w => { w with stopToken := true }) with
        supervisor := pc }

variable {S} in
theorem moves_of_supervisorStep {s t : S.State} {fault : Option Failure}
    (h : S.supervisorStep s fault = some t) : S.SupervisorMoves s fault t := by
  have lead {pc pc' : SupervisorPc} (hpc : s.supervisor = pc)
      (hleads : S.SupervisorLeads s fault pc pc') :
      S.SupervisorMoves s fault { s with supervisor := pc' } := .lead (hpc ▸ hleads)
  have store {pc pc' : SupervisorPc} {sh : Shared World} (hpc : s.supervisor = pc)
      (hstores : SupervisorStores s.shared pc sh pc') :
      S.SupervisorMoves s fault { s with shared := sh, supervisor := pc' } := .store (hpc ▸ hstores)
  cases hpc : s.supervisor
  all_goals simp only [supervisorStep, hpc] at h
  case returned => cases h
  case prepare =>
    split at h
    · cases h
      exact lead hpc (.refuse rfl)
    · cases h
      exact lead hpc (.prepared rfl)
  case stopTest =>
    cases h
    apply lead hpc
    split_ifs with hstopped
    · exact .stopEarly hstopped
    · exact .goOn (Bool.eq_false_of_not_eq_true hstopped)
  case spawn k =>
    split at h
    · cases h
      exact lead hpc (.unwind rfl)
    · split_ifs at h with hroom
      · cases h
        exact .spawn hpc hroom
      · cases h
        exact lead hpc (.spawned (not_lt.mp hroom))
  case awaitStop =>
    split_ifs at h with hstopped
    cases h
    exact lead hpc (.stop hstopped)
  case stopWorkers k =>
    split_ifs at h with hroom
    · cases h
      exact .tell (hpc ▸ .stop hroom)
    · cases h
      exact lead hpc (.told (not_lt.mp hroom))
  case join =>
    split_ifs at h with hdone
    cases h
    exact lead hpc (.joined hdone)
  case markFinished =>
    split_ifs at h with hidle
    cases h
    exact lead hpc (.finished hidle)
  case loadState =>
    cases h
    apply lead hpc
    split_ifs with hfailed
    · exact .keepFailed hfailed
    · exact .settle hfailed
  case unwind k n failure =>
    split_ifs at h with hleft
    · cases h
      exact .tell (hpc ▸ .unwind hleft)
    · cases h
      exact lead hpc (.unwound (not_lt.mp hleft))
  case unwindJoin k n failure =>
    split_ifs at h with hdone
    cases h
    exact lead hpc (.joinedOne hdone)
  case storeEarlyStopped =>
    cases h
    exact store hpc .earlyStopped
  case storeStopped =>
    cases h
    exact store hpc .stopped
  case setError failure =>
    cases h
    exact store hpc (.setError failure)
  case storeFailed =>
    cases h
    exact store hpc .storeFailed
  case errorStop =>
    cases h
    exact store hpc .errorStop

def step (s : S.State) : Action Event S.workerCount → Option S.State
  | .requestStop => some { s with shared := clientStep s.shared }
  | .supervisor fault => S.supervisorStep s fault
  | .worker i event fault =>
    (S.workerStep i s.shared (s.workers i) event fault).map fun r =>
      { s with shared := r.1, workers := Function.update s.workers i r.2 }

def initial : S.State := { shared := { world := S.world } }

def machine : Machine S.State (Action Event S.workerCount) where
  initial := S.initial
  step := S.step

end Setup

/-- `StressTestService::start` up to the creation of the supervisor: the checks, the
normalised configuration and the number of workers. -/
def start (optimalWorkerCount : TransportProtocol → ℕ) (config : GeneratorConfig) :
    Except Bytes (GeneratorConfig × ℕ) :=
  if config.templates = [] then .error (bytes "At least one log template is required")
  else if config.endpoint.protocol ≠ .file ∧
      (config.endpoint.host = [] ∨ config.endpoint.port = 0) then
    .error (bytes "A destination host and port are required")
  else if config.timestampGeneration.mode = .range ∧ config.timestampGeneration.range.valid = false then
    .error (bytes "A valid timestamp range is required")
  else
    let file := config.endpoint.protocol = .file
    let mode := if file then .sequential else config.transmissionMode
    let framing := if file then .newline else config.endpoint.framing
    let packetization :=
      if config.endpoint.protocol = .udp then config.endpoint.udpPacketization
      else .oneEventPerDatagram
    let workers :=
      if mode = .parallel ∧ ¬ file then
        clamp (optimalWorkerCount config.endpoint.protocol) 1 64
      else 1
    let workerCount := if 0 < config.targetEps then min workers config.targetEps else workers
    .ok ({ config with
      transmissionMode := mode
      endpoint := { config.endpoint with framing := framing, udpPacketization := packetization } },
      workerCount)

end Application
end LogGenerator
