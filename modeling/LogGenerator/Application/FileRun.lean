import LogGenerator.Application.LogPreparationCache
import LogGenerator.Application.RoundRobin
import LogGenerator.Application.StressTestService
import LogGenerator.Infrastructure.FileTransport

/-!
# FILE runs with a count limit

The service, the preparation cache, the round robin and the FILE transport put
together: a run that `start` begins and nothing hinders ends by itself, with the
promised files.
-/

namespace LogGenerator
namespace Application

open Ascii Domain Infrastructure LogPreparationCache

/-- No call of the operating system fails. -/
structure NoIoError (event : FileEvent) : Prop where
  connect : event.connect.directoryError = none
  send : ∀ call index content, ((event.send call).file index).Completes content

theorem logs_line {body : Bytes} (h : lf ∉ body) : logs (body ++ [lf]) = [body ++ [lf]] := by
  induction body with
  | nil => rfl
  | cons b body ih =>
    obtain ⟨hb, hbody⟩ := not_or.mp (mt List.mem_cons.mpr h)
    have hne : b ≠ lf := fun heq => hb heq.symm
    rw [List.cons_append, logs, if_neg hne, ih hbody]

theorem logs_newlineFrame (payload : Bytes) :
    logs (newlineFrame payload) = [newlineFrame payload] := by
  rw [newlineFrame_eq]
  exact logs_line (lf_notMem_escapeBreaks payload)

/-- A connected transport that has written `K` files and has no other limit than their number. -/
structure Counting (limit K : ℕ) (t : FileTransport) : Prop where
  connected : t.timestamp ≠ []
  fileCount : t.fileCount = K
  maxFileCount : t.maxFileCount = limit
  maxTotalBytes : t.maxTotalBytes = 0
  maxDuration : t.maxDuration ≤ 0

theorem Counting.limitReached {limit K : ℕ} {t : FileTransport} (h : Counting limit K t)
    (payload : Bytes) (now : ℤ) : t.limitReached (newlineFrame payload) now =
      if 0 < limit ∧ limit ≤ K then some .fileCountLimitReached else none := by
  rw [t.limitReached_eq (newlineFrame_ne_nil payload), FileTransport.exactLimit,
    logs_newlineFrame, h.maxTotalBytes, h.maxFileCount, h.fileCount,
    if_neg (fun hd => absurd hd.1 (not_lt.mpr h.maxDuration)), if_neg (by simp)]
  simp only [List.length_singleton, Nat.lt_succ_iff]

/-- Below the limit the line becomes one new file. -/
theorem Counting.send {limit K : ℕ} {t : FileTransport} (h : Counting limit K t) (hK : K < limit)
    (d : Directory) (payload : Bytes) {io : SendIo}
    (hio : ∀ index content, (io.file index).Completes content) :
    ∃ name t' d', t.send d (newlineFrame payload) io = (.ok .sent, t', d') ∧
      Counting limit (K + 1) t' ∧ d'.files = d.files ++ [(name, newlineFrame payload)] := by
  rw [FileTransport.send, if_neg h.connected, if_neg (newlineFrame_ne_nil payload),
    h.limitReached, if_neg (by omega), logs_newlineFrame]
  cases hnext : writeNext t.timestamp d (newlineFrame payload) io.file t.nextFileIndex with
  | mk r found =>
    obtain ⟨index, d'⟩ := found
    obtain ⟨last, _, _, _, _, hends⟩ := writeNext_spec hnext
    cases r with
    | error failure => exact absurd (hio last _) hends.1
    | ok u =>
      simp only [FileTransport.writeLogs, hnext]
      refine ⟨_, _, _, rfl, ⟨h.connected, ?_, h.maxFileCount, h.maxTotalBytes, h.maxDuration⟩,
        hends.1⟩
      dsimp only
      rw [h.fileCount]

/-- One worker, newline framing, and no limit but the number of files. -/
structure CountLimited (S : Setup FileTransport Directory FileEvent) : Prop where
  transport : S.transport = fileTransport
  workerCount : S.workerCount = 1
  protocol : S.endpoint.protocol = .file
  framing : S.endpoint.framing = .newline
  fileMaxCount : 0 < S.endpoint.fileMaxCount
  fileMaxCount_lt : S.endpoint.fileMaxCount < sizeModulus
  fileMaxTotalBytes : S.endpoint.fileMaxTotalBytes = 0
  fileMaxDuration : S.endpoint.fileMaxDuration ≤ 0

/-- No stop is requested, nothing throws and no call of the operating system fails. -/
def Unhindered {n : ℕ} : Action FileEvent n → Prop
  | .requestStop => False
  | .supervisor fault => fault = none
  | .worker _ event fault => fault = none ∧ NoIoError event

/-- The batch of one line that an iteration hands to the transport. -/
def lineBatch (payload : Bytes) : Batch where
  views := [newlineFrame payload]
  events := 1
  datagrams := 0
  bytes := (newlineFrame payload).length

namespace Setup

variable {S : Setup FileTransport Directory FileEvent} {i : Fin S.workerCount}

/-- The worker holds a transport that has written `K` files. -/
def Holds (S : Setup FileTransport Directory FileEvent) (K : ℕ) (handle : Option FileTransport) :
    Prop :=
  ∃ t, handle = some t ∧ Counting S.endpoint.fileMaxCount K t

/-- `K` files are written and counted, `uncounted` of them only by the worker itself. -/
structure Tallied (S : Setup FileTransport Directory FileEvent) (i : Fin S.workerCount)
    (K uncounted totalMessages localMessages : ℕ) (d : Directory) : Prop where
  localMessages : localMessages = uncounted
  totalMessages : totalMessages + uncounted = K
  bound : K ≤ S.endpoint.fileMaxCount
  files : ∃ new, d.files = S.world.files ++ new ∧
    new.map Prod.snd = (List.range K).map fun k => newlineFrame (S.payload i k)

theorem Tallied.fetchAdd {K uncounted total localMessages : ℕ} {d : Directory}
    (hS : CountLimited S)
    (h : Tallied S i K uncounted total localMessages d) :
    fetchAdd total localMessages = total + localMessages := by
  obtain ⟨hlocal, htotal, hbound, _⟩ := h
  have hword : K < 2 ^ 64 := hbound.trans_lt hS.fileMaxCount_lt
  exact fetchAdd_of_lt (by omega)

/-- The worker of an unhindered run, by its place. -/
def At (S : Setup FileTransport Directory FileEvent) (i : Fin S.workerCount) (K : ℕ)
    (sh : Shared Directory) (w : Worker FileTransport) : Prop :=
  let tally := fun uncounted =>
    Tallied S i K uncounted sh.totalMessages w.localMessages sh.world
  match w.pc with
  | .unstarted | .connect =>
    K = 0 ∧ tally 0 ∧ sh.state = .connecting ∧ sh.connectedWorkers = 0 ∧
      w.pack.position = K
  | .announce =>
    tally 0 ∧ sh.state = .connecting ∧ sh.connectedWorkers = 0 ∧
      w.pack.position = K ∧ Holds S K w.handle
  | .markStarted | .openGate =>
    tally 0 ∧ sh.state = .connecting ∧ w.pack.position = K ∧ Holds S K w.handle
  | .flushMessages .loop =>
    tally 1 ∧ sh.state = .running ∧ w.pack.position = K ∧ Holds S K w.handle
  | .enterLoop | .loopTest | .render | .flushDatagrams .loop | .flushBytes .loop =>
    tally 0 ∧ sh.state = .running ∧ w.pack.position = K ∧ Holds S K w.handle
  | .pace | .paceTest | .send =>
    tally 0 ∧ sh.state = .running ∧ w.pack.position = K + 1 ∧ Holds S K w.handle ∧
      w.batch = lineBatch (S.payload i K)
  | .flushMessages (.complete result) | .flushDatagrams (.complete result)
  | .flushBytes (.complete result) | .setStatus result =>
    tally 0 ∧ sh.state = .running ∧ K = S.endpoint.fileMaxCount ∧
      result = .fileCountLimitReached
  | .completionLoad | .completionStore =>
    tally 0 ∧ sh.state = .running ∧ K = S.endpoint.fileMaxCount
  | .completionStop =>
    tally 0 ∧ sh.state = .stopping ∧ K = S.endpoint.fileMaxCount
  | .done .returned =>
    tally 0 ∧ sh.state ≠ .failed ∧ K = S.endpoint.fileMaxCount
  | _ => False

/-- How far the worker is from its end, next to the files still to come. -/
def place : WorkerPc → ℕ
  | .unstarted | .connect => 20
  | .announce => 19
  | .markStarted => 18
  | .openGate => 17
  | .enterLoop => 16
  | .flushMessages .loop => 15
  | .flushDatagrams .loop => 14
  | .flushBytes .loop => 13
  | .loopTest => 12
  | .render => 11
  | .pace => 10
  | .paceTest => 9
  | .send => 8
  | .flushMessages _ => 7
  | .flushDatagrams _ => 6
  | .flushBytes _ => 5
  | .setStatus _ => 4
  | .completionLoad => 3
  | .completionStore => 2
  | .completionStop => 1
  | _ => 0

/-- Every round of the loop writes a file, which outweighs its places. -/
def workerRank (S : Setup FileTransport Directory FileEvent) (sh : Shared Directory)
    (w : Worker FileTransport) : ℕ :=
  20 * (S.endpoint.fileMaxCount - (sh.totalMessages + w.localMessages)) + place w.pc

variable {sh sh' : Shared Directory} {w w' : Worker FileTransport} {event : FileEvent}

theorem Holds.handle {K : ℕ} {t : FileTransport} (h : Holds S K w.handle)
    (hhandle : w.handle = some t) : Counting S.endpoint.fileMaxCount K t := by
  obtain ⟨t', ht, hcounting⟩ := h
  rwa [Option.some.inj (hhandle.symm.trans ht)]

/-- The place of the supervisor goes with the place of the only worker. -/
def SupervisorAt (S : Setup FileTransport Directory FileEvent) (i : Fin S.workerCount)
    (s : S.State) : Prop :=
  match s.supervisor with
  | .prepare | .stopTest | .spawn 0 => (s.workers i).pc = .unstarted
  | .spawn 1 | .awaitStop => (s.workers i).pc ≠ .unstarted
  | .stopWorkers 0 | .stopWorkers 1 | .join | .markFinished | .loadState | .storeStopped =>
    (s.workers i).pc = .done .returned
  | .returned => (s.workers i).pc = .done .returned ∧ s.shared.state = .stopped
  | _ => False

structure Going (S : Setup FileTransport Directory FileEvent) (i : Fin S.workerCount)
    (s : S.State) : Prop where
  client : s.shared.client = .idle
  sendErrors : s.shared.sendErrors = 0
  worker : ∃ K, At S i K s.shared (s.workers i)
  stopRequested : s.shared.stopRequested = true ↔ (s.workers i).pc = .done .returned
  stopToken : (s.workers i).stopToken = true → (s.workers i).pc = .done .returned
  supervisor : SupervisorAt S i s

def supervisorPlace : SupervisorPc → ℕ
  | .prepare => 11
  | .stopTest => 10
  | .spawn 0 => 9
  | .spawn _ => 8
  | .awaitStop => 7
  | .stopWorkers 0 => 6
  | .stopWorkers _ => 5
  | .join => 4
  | .markFinished => 3
  | .loadState => 2
  | .storeStopped => 1
  | _ => 0

def runRank (S : Setup FileTransport Directory FileEvent) (i : Fin S.workerCount)
    (s : S.State) : ℕ :=
  workerRank S s.shared (s.workers i) + supervisorPlace s.supervisor

/-- A step of the supervisor that changes nothing but its own place. -/
theorem Going.move {s : S.State} (h : Going S i s) {pc : SupervisorPc}
    (hat : SupervisorAt S i { s with supervisor := pc })
    (hplace : supervisorPlace pc < supervisorPlace s.supervisor) :
    Going S i { s with supervisor := pc } ∧
      runRank S i { s with supervisor := pc } < runRank S i s :=
  ⟨⟨h.client, h.sendErrors, h.worker, h.stopRequested, h.stopToken, hat⟩,
    Nat.add_lt_add_left hplace _⟩

/-- Every unhindered run can be continued until the supervisor returns, none is longer than
some bound, and at the end `outcome` holds. -/
def EndsWith (S : Setup FileTransport Directory FileEvent) (outcome : Shared Directory → Prop) :
    Prop :=
  (∃ bound, ∀ actions s, (∀ a ∈ actions, Unhindered a) →
    S.machine.exec S.initial actions = some s → actions.length ≤ bound) ∧
  ∀ s, S.machine.Steps (fun _ => Unhindered) S.initial s →
    (s.supervisor ≠ .returned → ∃ a t, Unhindered a ∧ S.machine.step s a = some t) ∧
    (s.supervisor = .returned → outcome s.shared)

theorem EndsWith.mono {outcome outcome' : Shared Directory → Prop} (h : S.EndsWith outcome)
    (himp : ∀ sh, outcome sh → outcome' sh) : S.EndsWith outcome' := by
  obtain ⟨hbounded, hends⟩ := h
  exact ⟨hbounded, fun s hrun => ⟨(hends s hrun).1, fun hover => himp _ ((hends s hrun).2 hover)⟩⟩

/-- What is left at the end of an unhindered run. -/
structure Finished (S : Setup FileTransport Directory FileEvent) (i : Fin S.workerCount)
    (sh : Shared Directory) : Prop where
  files : ∃ new, sh.world.files = S.world.files ++ new ∧ new.map Prod.snd =
    (List.range S.endpoint.fileMaxCount).map fun k => newlineFrame (S.payload i k)
  totalMessages : sh.totalMessages = S.endpoint.fileMaxCount
  sendErrors : sh.sendErrors = 0
  state : sh.state = .stopped

end Setup

theorem start_file {optimalWorkerCount : TransportProtocol → ℕ} {config run : GeneratorConfig}
    {workerCount : ℕ} (hstart : start optimalWorkerCount config = .ok (run, workerCount))
    (hfile : config.endpoint.protocol = .file) :
    workerCount = 1 ∧ config.templates ≠ [] ∧ run.templates = config.templates ∧
      run.endpoint.protocol = .file ∧ run.endpoint.framing = .newline ∧
      run.endpoint.fileMaxCount = config.endpoint.fileMaxCount ∧
      run.endpoint.fileMaxTotalBytes = config.endpoint.fileMaxTotalBytes ∧
      run.endpoint.fileMaxDuration = config.endpoint.fileMaxDuration := by
  unfold start at hstart
  by_cases hempty : config.templates = []
  · rw [if_pos hempty] at hstart
    cases hstart
  · rw [if_neg hempty, if_neg (fun h => h.1 hfile)] at hstart
    split at hstart
    · cases hstart
    · obtain ⟨rfl, hworkers⟩ := Prod.mk.inj (Except.ok.inj hstart)
      refine ⟨?_, hempty, rfl, hfile, if_pos hfile, rfl, rfl, rfl⟩
      rw [← hworkers]
      simp only [hfile, not_true_eq_false, and_false, ↓reduceIte]
      split_ifs
      · omega
      · rfl

def calendarTime (config : GeneratorConfig) : Bool := config.timestampGeneration.mode = .range

def twoSamples : GeneratorConfig where
  endpoint :=
    { protocol := .file
      fileMaxCount := 3 }
  templates := [{ sample := bytes "up" }, { sample := bytes "down" }]

end Application
end LogGenerator
