import LogGenerator.Application.TimestampFormat
import LogGenerator.Foundation.Machine
import LogGenerator.Foundation.Overflow

/-!
# The asynchronous logger

The calls of `log`, the worker thread and the destructor, interleaved at each access
to a shared variable. A wait on the condition variable may end at any time, so the
worker only waits for the mutex; a flush changes nothing that is modelled. No
allocation and no output fails.
-/

namespace LogGenerator
namespace Infrastructure

open Ascii Application

inductive LogLevel where
  | debug | info | warning | error | critical
  deriving DecidableEq

def logLevelName : LogLevel → Bytes
  | .debug => bytes "DEBUG"
  | .info => bytes "INFO"
  | .warning => bytes "WARN"
  | .error => bytes "ERROR"
  | .critical => bytes "CRITICAL"

namespace AsyncFileLogger

/-- The time is in nanoseconds since the epoch. -/
structure Entry where
  timestamp : ℤ
  level : LogLevel
  threadId : ℕ
  message : Bytes
  deriving DecidableEq

def sanitize (message : Bytes) : Bytes :=
  message.flatMap fun b => if b = cr then [] else if b = lf then bytes "\\n" else [b]

def dateKey (localTime : ℤ → Tm) (timestamp : ℤ) : Bytes :=
  let value := localTime (toTimeT timestamp)
  snprintf 16 (zeroPadded 4 (value.year + 1900) ++ zeroPadded 2 (value.mon + 1) ++
    zeroPadded 2 value.mday)

def timestampBuffer (localTime : ℤ → Tm) (timestamp : ℤ) : Bytes :=
  let value := localTime (toTimeT timestamp)
  let milliseconds := (timestamp.tdiv 1000000).tmod 1000
  snprintf 64 (zeroPadded 4 (value.year + 1900) ++ bytes "-" ++ zeroPadded 2 (value.mon + 1) ++
    bytes "-" ++ zeroPadded 2 value.mday ++ bytes " " ++ zeroPadded 2 value.hour ++ bytes ":" ++
    zeroPadded 2 value.min ++ bytes ":" ++ zeroPadded 2 value.sec ++ bytes "." ++
    zeroPadded 3 milliseconds)

def formatEntry (localTime : ℤ → Tm) (entry : Entry) : Bytes :=
  bytes "[" ++ timestampBuffer localTime entry.timestamp ++ bytes "] [" ++
    logLevelName entry.level ++ bytes "] [T" ++ decimal entry.threadId ++ bytes "] " ++
    sanitize entry.message ++ [lf]

/-- A text followed by its only line feed. -/
def IsLine (text : Bytes) : Prop := ∃ body, text = body ++ [lf] ∧ lf ∉ body

theorem lf_not_mem_sanitize (message : Bytes) : lf ∉ sanitize message := by
  intro hmem
  obtain ⟨b, -, hb⟩ := List.mem_flatMap.mp hmem
  split_ifs at hb with hcr hlf
  · cases hb
  · exact absurd hb (by decide)
  · exact hlf (List.mem_singleton.mp hb).symm

theorem lf_not_mem_decimal (n : ℕ) : lf ∉ decimal n := fun hmem =>
  absurd (decimal_isDigit n lf hmem) (by decide)

theorem lf_not_mem_zeroPadded (width : ℕ) (n : ℤ) : lf ∉ zeroPadded width n := by
  have hsign : lf ∉ if n < 0 then bytes "-" else [] := by
    split_ifs
    · decide
    · decide
  have hzero : lf ≠ digit 0 := by decide
  simp only [zeroPadded, List.mem_append, List.mem_replicate, not_or, not_and]
  exact ⟨⟨hsign, fun _ => hzero⟩, lf_not_mem_decimal _⟩

theorem lf_not_mem_snprintf {text : Bytes} (size : ℕ) (h : lf ∉ text) : lf ∉ snprintf size text :=
  fun hmem => h ((List.takeWhile_sublist _).subset ((List.take_sublist _ _).subset hmem))

theorem lf_not_mem_timestampBuffer (localTime : ℤ → Tm) (timestamp : ℤ) :
    lf ∉ timestampBuffer localTime timestamp := by
  refine lf_not_mem_snprintf 64 ?_
  have hdash : lf ∉ bytes "-" := by decide
  have hspace : lf ∉ bytes " " := by decide
  have hcolon : lf ∉ bytes ":" := by decide
  have hdot : lf ∉ bytes "." := by decide
  simp only [List.mem_append, not_or, lf_not_mem_zeroPadded, hdash, hspace, hcolon, hdot,
    not_false_eq_true, and_self]

theorem lf_not_mem_logLevelName (level : LogLevel) : lf ∉ logLevelName level := by
  cases level
  all_goals decide

theorem isLine_formatEntry (localTime : ℤ → Tm) (entry : Entry) :
    IsLine (formatEntry localTime entry) := by
  refine ⟨_, rfl, ?_⟩
  have hopen : lf ∉ bytes "[" := by decide
  have hbetween : lf ∉ bytes "] [" := by decide
  have hthread : lf ∉ bytes "] [T" := by decide
  have hclose : lf ∉ bytes "] " := by decide
  simp only [List.mem_append, not_or, lf_not_mem_timestampBuffer, lf_not_mem_logLevelName,
    lf_not_mem_decimal, lf_not_mem_sanitize, hopen, hbetween, hthread, hclose, not_false_eq_true,
    and_self]

/-- Where a call of `log` is. `refused`, `queued` and `dropped` have returned. -/
inductive CallPc where
  | entered
  | makeEntry
  | lock (entry : Entry)
  | recheck (entry : Entry)
  | sizeTest (entry : Entry)
  | countPending
  | countTotal
  | refused
  | queued (entry : Entry)
  | dropped

inductive WorkerPc where
  | wait
  | swap
  | emptyTest
  | write
  | exchange
  | notice (count : ℕ)
  | lastExchange
  | lastNotice (count : ℕ)
  | returned

inductive DestructorPc where
  | notCalled
  | requestStop
  | join
  | close
  | returned
  deriving DecidableEq

/-- Who holds the mutex. -/
inductive Thread (ι : Type) where
  | worker
  | call (i : ι)

/-- A line of output: the entry of a call, or a notice of discarded entries. -/
inductive Write (ι : Type) where
  | entry (i : ι) (entry : Entry)
  | notice (count : ℕ) (entry : Entry)

def Write.record {ι : Type} : Write ι → Entry
  | .entry _ written | .notice _ written => written

/-- What a line announces as discarded. -/
def Write.announced {ι : Type} : Write ι → ℕ
  | .entry _ _ => 0
  | .notice count _ => count

def Write.call? {ι : Type} : Write ι → Option (ι × Entry)
  | .entry i written => some (i, written)
  | .notice _ _ => none

/-- A logger and the calls of `log` made on it, by any threads. -/
structure Setup (ι : Type) where
  directory : Bytes
  baseName : Bytes
  queueCapacity : ℕ
  baseName_ne_nil : baseName ≠ []
  capacity_pos : 0 < queueCapacity
  localTime : ℤ → Tm
  openedAt : ℤ
  files : Bytes → Bytes
  level : ι → LogLevel
  message : ι → Bytes

/-- The members, what the files hold, and a record of what was enqueued, discarded (with the
length of the queue at that moment) and written. -/
structure State (ι : Type) where
  accepting : Bool := true
  stopRequested : Bool := false
  holder : Option (Thread ι) := none
  queue : List (ι × Entry) := []
  pending : List (ι × Entry) := []
  droppedPending : ℕ := 0
  droppedTotal : ℕ := 0
  isOpen : Bool := true
  activeDate : Bytes
  files : Bytes → Bytes
  calls : ι → CallPc := fun _ => .entered
  worker : WorkerPc := .wait
  destructor : DestructorPc := .notCalled
  enqueued : List (ι × Entry) := []
  discarded : List (ι × ℕ) := []
  writes : List (Write ι) := []

variable {ι : Type}

/-- The entries of the calls among the lines, in the order of the lines. -/
def State.written (s : State ι) : List (ι × Entry) := s.writes.filterMap Write.call?

/-- The sum of the notices. -/
def State.announced (s : State ι) : ℕ := (s.writes.map Write.announced).sum

def Setup.path (S : Setup ι) (date : Bytes) : Bytes :=
  S.directory ++ bytes "/" ++ S.baseName ++ bytes "_" ++ date ++ bytes ".log"

def discardedText (count : ℕ) : Bytes :=
  bytes "Logger queue discarded " ++ decimal count ++ bytes " entries"

namespace Setup

variable (S : Setup ι)

def openFor (timestamp : ℤ) (s : State ι) : State ι :=
  let requestedDate := dateKey S.localTime timestamp
  if s.isOpen && requestedDate = s.activeDate then s
  else { s with isOpen := true, activeDate := requestedDate }

def writeEntry (w : Write ι) (s : State ι) : State ι :=
  let path := S.path s.activeDate
  { s with
    files := Function.update s.files path (s.files path ++ formatEntry S.localTime w.record)
    writes := s.writes ++ [w] }

/-- `open_for` and `write_entry`. -/
def put (w : Write ι) (s : State ι) : State ι := S.writeEntry w (S.openFor w.record.timestamp s)

def writeDroppedNotice (count : ℕ) (clock : ℤ) (threadId : ℕ) (s : State ι) : State ι :=
  S.put (.notice count ⟨clock, .warning, threadId, discardedText count⟩) s

def workerStep (clock : ℤ) (threadId : ℕ) (s : State ι) : Option (State ι) :=
  match s.worker with
  | .wait =>
    match s.holder with
    | none => some { s with holder := some .worker, worker := .swap }
    | some _ => none
  | .swap => some { s with queue := s.pending, pending := s.queue, worker := .emptyTest }
  | .emptyTest =>
    some { s with
      holder := none
      worker := if s.pending.isEmpty && s.stopRequested then .lastExchange else .write }
  | .write =>
    match s.pending with
    | [] => some { s with worker := .exchange }
    | (i, entry) :: rest => some { S.put (.entry i entry) s with pending := rest }
  | .exchange =>
    some { s with
      droppedPending := 0
      worker := if 0 < s.droppedPending then .notice s.droppedPending else .wait }
  | .notice count => some { S.writeDroppedNotice count clock threadId s with worker := .wait }
  | .lastExchange =>
    some { s with
      droppedPending := 0
      worker := if 0 < s.droppedPending then .lastNotice s.droppedPending else .returned }
  | .lastNotice count =>
    some { S.writeDroppedNotice count clock threadId s with worker := .returned }
  | .returned => none

end Setup

def State.goto [DecidableEq ι] (s : State ι) (i : ι) (pc : CallPc) : State ι :=
  { s with calls := Function.update s.calls i pc }

@[simp] theorem State.goto_calls [DecidableEq ι] (s : State ι) (i : ι) (pc : CallPc) :
    (s.goto i pc).calls = Function.update s.calls i pc := rfl

def Setup.logStep [DecidableEq ι] (S : Setup ι) (i : ι) (clock : ℤ) (threadId : ℕ) (s : State ι) :
    Option (State ι) :=
  match s.calls i with
  | .entered => some (s.goto i (if s.accepting then .makeEntry else .refused))
  | .makeEntry => some (s.goto i (.lock ⟨clock, S.level i, threadId, S.message i⟩))
  | .lock entry =>
    match s.holder with
    | none => some { s.goto i (.recheck entry) with holder := some (.call i) }
    | some _ => none
  | .recheck entry =>
    if s.accepting then some (s.goto i (.sizeTest entry))
    else some { s.goto i .refused with holder := none }
  | .sizeTest entry =>
    if S.queueCapacity ≤ s.queue.length then some (s.goto i .countPending)
    else
      some { s.goto i (.queued entry) with
        queue := s.queue ++ [(i, entry)]
        holder := none
        enqueued := s.enqueued ++ [(i, entry)] }
  | .countPending =>
    some { s.goto i .countTotal with droppedPending := fetchAdd s.droppedPending 1 }
  | .countTotal =>
    some { s.goto i .dropped with
      droppedTotal := fetchAdd s.droppedTotal 1
      holder := none
      discarded := s.discarded ++ [(i, s.queue.length)] }
  | .refused | .queued _ | .dropped => none

def destroyStep (s : State ι) : Option (State ι) :=
  match s.destructor with
  | .notCalled => some { s with accepting := false, destructor := .requestStop }
  | .requestStop => some { s with stopRequested := true, destructor := .join }
  | .join =>
    match s.worker with
    | .returned => some { s with destructor := .close }
    | _ => none
  | .close => some { s with isOpen := false, destructor := .returned }
  | .returned => none

/-- Whose next step it is, and what its clock and its thread are. -/
inductive Action (ι : Type) where
  | log (i : ι) (clock : ℤ) (threadId : ℕ)
  | worker (clock : ℤ) (threadId : ℕ)
  | destroy

/-- The state after the constructor. -/
def Setup.start (S : Setup ι) : State ι where
  activeDate := dateKey S.localTime S.openedAt
  files := S.files

def Setup.machine [DecidableEq ι] (S : Setup ι) : Machine (State ι) (Action ι) where
  initial := S.start
  step s
    | .log i clock threadId => S.logStep i clock threadId s
    | .worker clock threadId => S.workerStep clock threadId s
    | .destroy => destroyStep s

/-- What a step of the worker can do. -/
inductive WorkerMoves (S : Setup ι) (clock : ℤ) (threadId : ℕ) (s : State ι) : State ι → Prop where
  | wake (hpc : s.worker = .wait) (hfree : s.holder = none) :
      WorkerMoves S clock threadId s { s with holder := some .worker, worker := .swap }
  | swap (hpc : s.worker = .swap) :
      WorkerMoves S clock threadId s
        { s with queue := s.pending, pending := s.queue, worker := .emptyTest }
  | leave (hpc : s.worker = .emptyTest) (hempty : s.pending = []) (hstop : s.stopRequested = true) :
      WorkerMoves S clock threadId s { s with holder := none, worker := .lastExchange }
  | goOn (hpc : s.worker = .emptyTest) (h : s.stopRequested = true → s.pending ≠ []) :
      WorkerMoves S clock threadId s { s with holder := none, worker := .write }
  | write {i : ι} {entry : Entry} {rest : List (ι × Entry)} (hpc : s.worker = .write)
      (hpending : s.pending = (i, entry) :: rest) :
      WorkerMoves S clock threadId s { S.put (.entry i entry) s with pending := rest }
  | written (hpc : s.worker = .write) (hempty : s.pending = []) :
      WorkerMoves S clock threadId s { s with worker := .exchange }
  | exchange {worker : WorkerPc} (hpc : s.worker = .exchange)
      (h : worker = .notice s.droppedPending ∨ worker = .wait ∧ s.droppedPending = 0) :
      WorkerMoves S clock threadId s { s with droppedPending := 0, worker := worker }
  | notice {count : ℕ} (hpc : s.worker = .notice count) :
      WorkerMoves S clock threadId s
        { S.writeDroppedNotice count clock threadId s with worker := .wait }
  | lastExchange {worker : WorkerPc} (hpc : s.worker = .lastExchange)
      (h : worker = .lastNotice s.droppedPending ∨ worker = .returned ∧ s.droppedPending = 0) :
      WorkerMoves S clock threadId s { s with droppedPending := 0, worker := worker }
  | lastNotice {count : ℕ} (hpc : s.worker = .lastNotice count) :
      WorkerMoves S clock threadId s
        { S.writeDroppedNotice count clock threadId s with worker := .returned }

theorem moves_of_workerStep {S : Setup ι} {s t : State ι} {clock : ℤ} {threadId : ℕ}
    (h : S.workerStep clock threadId s = some t) : WorkerMoves S clock threadId s t := by
  unfold Setup.workerStep at h
  cases hpc : s.worker
  all_goals simp only [hpc] at h
  case wait =>
    split at h
    · next hfree =>
      cases h
      exact .wake hpc hfree
    · cases h
  case swap =>
    cases h
    exact .swap hpc
  case emptyTest =>
    cases h
    split_ifs with hlast
    · rw [Bool.and_eq_true, List.isEmpty_iff] at hlast
      exact .leave hpc hlast.1 hlast.2
    · apply WorkerMoves.goOn hpc
      intro hstop hempty
      simp [hstop, hempty] at hlast
  case write =>
    split at h
    · next hempty =>
      cases h
      exact .written hpc hempty
    · next hpending =>
      cases h
      exact .write hpc hpending
  case exchange =>
    cases h
    apply WorkerMoves.exchange hpc
    split_ifs with hdropped
    · exact .inl rfl
    · exact .inr ⟨rfl, Nat.eq_zero_of_not_pos hdropped⟩
  case notice count =>
    cases h
    exact .notice hpc
  case lastExchange =>
    cases h
    apply WorkerMoves.lastExchange hpc
    split_ifs with hdropped
    · exact .inl rfl
    · exact .inr ⟨rfl, Nat.eq_zero_of_not_pos hdropped⟩
  case lastNotice count =>
    cases h
    exact .lastNotice hpc
  case returned => cases h

/-- What a step of a call can do. -/
inductive LogMoves [DecidableEq ι] (S : Setup ι) (i : ι) (clock : ℤ) (threadId : ℕ)
    (s : State ι) : State ι → Prop where
  | accept (hpc : s.calls i = .entered) (h : s.accepting = true) :
      LogMoves S i clock threadId s (s.goto i .makeEntry)
  | refuse (hpc : s.calls i = .entered) : LogMoves S i clock threadId s (s.goto i .refused)
  | makeEntry (hpc : s.calls i = .makeEntry) :
      LogMoves S i clock threadId s (s.goto i (.lock ⟨clock, S.level i, threadId, S.message i⟩))
  | lock {entry : Entry} (hpc : s.calls i = .lock entry) (hfree : s.holder = none) :
      LogMoves S i clock threadId s { s.goto i (.recheck entry) with holder := some (.call i) }
  | pass {entry : Entry} (hpc : s.calls i = .recheck entry) (h : s.accepting = true) :
      LogMoves S i clock threadId s (s.goto i (.sizeTest entry))
  | turnAway {entry : Entry} (hpc : s.calls i = .recheck entry) :
      LogMoves S i clock threadId s { s.goto i .refused with holder := none }
  | full {entry : Entry} (hpc : s.calls i = .sizeTest entry)
      (h : S.queueCapacity ≤ s.queue.length) :
      LogMoves S i clock threadId s (s.goto i .countPending)
  | enqueue {entry : Entry} (hpc : s.calls i = .sizeTest entry) :
      LogMoves S i clock threadId s { s.goto i (.queued entry) with
        queue := s.queue ++ [(i, entry)]
        holder := none
        enqueued := s.enqueued ++ [(i, entry)] }
  | countPending (hpc : s.calls i = .countPending) :
      LogMoves S i clock threadId s
        { s.goto i .countTotal with droppedPending := fetchAdd s.droppedPending 1 }
  | countTotal (hpc : s.calls i = .countTotal) :
      LogMoves S i clock threadId s { s.goto i .dropped with
        droppedTotal := fetchAdd s.droppedTotal 1
        holder := none
        discarded := s.discarded ++ [(i, s.queue.length)] }

theorem moves_of_logStep [DecidableEq ι] {S : Setup ι} {i : ι} {s t : State ι} {clock : ℤ}
    {threadId : ℕ} (h : S.logStep i clock threadId s = some t) :
    LogMoves S i clock threadId s t := by
  unfold Setup.logStep at h
  cases hpc : s.calls i
  all_goals simp only [hpc] at h
  case entered =>
    cases h
    split_ifs with haccepting
    · exact .accept hpc haccepting
    · exact .refuse hpc
  case makeEntry =>
    cases h
    exact .makeEntry hpc
  case lock entry =>
    split at h
    · next hfree =>
      cases h
      exact .lock hpc hfree
    · cases h
  case recheck entry =>
    split_ifs at h with haccepting
    · cases h
      exact .pass hpc haccepting
    · cases h
      exact .turnAway hpc
  case sizeTest entry =>
    split_ifs at h with hfull
    · cases h
      exact .full hpc hfull
    · cases h
      exact .enqueue hpc
  case countPending =>
    cases h
    exact .countPending hpc
  case countTotal =>
    cases h
    exact .countTotal hpc
  case refused | queued | dropped => cases h

/-- Inside the critical section of `log`. -/
def CallPc.Holds : CallPc → Prop
  | .recheck _ | .sizeTest _ | .countPending | .countTotal => True
  | _ => False

/-- Past the check under the lock, and still inside. -/
def CallPc.Admitted : CallPc → Prop
  | .sizeTest _ | .countPending | .countTotal => True
  | _ => False

theorem CallPc.Admitted.holds {pc : CallPc} (h : pc.Admitted) : pc.Holds := by
  cases pc
  case sizeTest | countPending | countTotal => trivial
  all_goals exact h.elim

def WorkerPc.Holds : WorkerPc → Prop
  | .swap | .emptyTest => True
  | _ => False

/-- The mutex is held by exactly the thread that is inside a critical section. -/
structure Guarded (holder : Option (Thread ι)) (calls : ι → CallPc) (worker : WorkerPc) :
    Prop where
  call : ∀ i, (calls i).Holds ↔ holder = some (.call i)
  worker : worker.Holds ↔ holder = some .worker

def State.Guarded (s : State ι) : Prop := AsyncFileLogger.Guarded s.holder s.calls s.worker

section

variable [DecidableEq ι] {holder : Option (Thread ι)} {calls : ι → CallPc} {worker : WorkerPc}
  {i : ι} {pc : CallPc}

theorem Guarded.move (h : Guarded holder calls worker) (hsame : pc.Holds ↔ (calls i).Holds) :
    Guarded holder (Function.update calls i pc) worker where
  call j := by
    by_cases hj : j = i
    · subst hj
      rw [Function.update_self, hsame]
      exact h.call j
    · rw [Function.update_of_ne hj]
      exact h.call j
  worker := h.worker

theorem Guarded.acquire (h : Guarded none calls worker) (hpc : pc.Holds) :
    Guarded (some (.call i)) (Function.update calls i pc) worker where
  call j := by
    by_cases hj : j = i
    · subst hj
      rw [Function.update_self]
      exact iff_of_true hpc rfl
    · rw [Function.update_of_ne hj, h.call j]
      simp [Ne.symm hj]
  worker := by simp [h.worker]

theorem Guarded.release (h : Guarded holder calls worker) (hold : (calls i).Holds)
    (hpc : ¬ pc.Holds) : Guarded none (Function.update calls i pc) worker where
  call j := by
    by_cases hj : j = i
    · subst hj
      rw [Function.update_self]
      exact iff_of_false hpc nofun
    · have hother : holder ≠ some (.call j) := by
        rw [(h.call i).mp hold]
        simp [Ne.symm hj]
      rw [Function.update_of_ne hj, h.call j]
      exact iff_of_false hother nofun
  worker := by
    rw [h.worker, (h.call i).mp hold]
    simp

end

theorem Guarded.worker_move {holder : Option (Thread ι)} {calls : ι → CallPc}
    {worker worker' : WorkerPc} (h : Guarded holder calls worker)
    (hsame : worker'.Holds ↔ worker.Holds) : Guarded holder calls worker' :=
  ⟨h.call, hsame.trans h.worker⟩

/-- No call is inside while the worker is. -/
theorem Guarded.not_holds {holder : Option (Thread ι)} {calls : ι → CallPc} {worker : WorkerPc}
    (h : Guarded holder calls worker) (hworker : worker.Holds) (i : ι) : ¬ (calls i).Holds := by
  rw [h.call i, h.worker.mp hworker]
  simp

variable {S : Setup ι} {s t : State ι} {i : ι} {clock : ℤ} {threadId : ℕ}

/-- What `put` leaves as it was, all but the files and the lines. -/
theorem put_frame (S : Setup ι) (w : Write ι) (s : State ι) :
    S.put w s = { s with
      isOpen := (S.put w s).isOpen
      activeDate := (S.put w s).activeDate
      files := (S.put w s).files
      writes := s.writes ++ [w] } := by
  unfold Setup.put Setup.writeEntry Setup.openFor
  dsimp only
  split_ifs
  · rfl
  · rfl

theorem guarded_worker (hs : s.Guarded) (h : S.workerStep clock threadId s = some t) :
    t.Guarded := by
  unfold State.Guarded at hs ⊢
  cases moves_of_workerStep h with
  | wake hpc hfree =>
    rw [hfree] at hs
    refine ⟨fun j => ?_, iff_of_true trivial rfl⟩
    exact iff_of_false (fun hin => nomatch (hs.call j).mp hin) nofun
  | leave hpc | goOn hpc =>
    have hnone := hs.not_holds (by rw [hpc]; trivial)
    exact ⟨fun j => iff_of_false (hnone j) nofun, iff_of_false id nofun⟩
  | write =>
    rw [put_frame]
    exact hs
  | exchange hpc hnext | lastExchange hpc hnext =>
    refine hs.worker_move ?_
    rw [hpc]
    rcases hnext with rfl | ⟨rfl, -⟩
    · exact Iff.rfl
    · exact Iff.rfl
  | notice hpc | lastNotice hpc =>
    rw [Setup.writeDroppedNotice, put_frame]
    refine hs.worker_move ?_
    rw [hpc]
    exact Iff.rfl
  | swap hpc | written hpc =>
    refine hs.worker_move ?_
    rw [hpc]
    exact Iff.rfl

theorem guarded_log [DecidableEq ι] (hs : s.Guarded) (h : S.logStep i clock threadId s = some t) :
    t.Guarded := by
  unfold State.Guarded at hs ⊢
  cases moves_of_logStep h with
  | lock hpc hfree =>
    rw [hfree] at hs
    exact hs.acquire trivial
  | accept hpc | refuse hpc | makeEntry hpc | pass hpc | full hpc | countPending hpc =>
    refine hs.move ?_
    rw [hpc]
    exact Iff.rfl
  | turnAway hpc | enqueue hpc | countTotal hpc =>
    refine hs.release ?_ id
    rw [hpc]
    trivial

/-- The destructor changes flags only. -/
theorem destroyStep_frame (h : destroyStep s = some t) :
    t = { s with
      accepting := t.accepting
      stopRequested := t.stopRequested
      isOpen := t.isOpen
      destructor := t.destructor } := by
  unfold destroyStep at h
  split at h
  · cases h
    rfl
  · cases h
    rfl
  · split at h
    · cases h
      rfl
    · cases h
  · cases h
    rfl
  · cases h

theorem guarded_step [DecidableEq ι] {a : Action ι} (hs : s.Guarded)
    (h : S.machine.step s a = some t) : t.Guarded := by
  cases a with
  | log i clock threadId => exact guarded_log hs h
  | worker clock threadId => exact guarded_worker hs h
  | destroy =>
    rw [destroyStep_frame h]
    exact hs

theorem guarded_start : S.start.Guarded :=
  ⟨fun _ => iff_of_false id nofun, iff_of_false id nofun⟩

theorem guarded [DecidableEq ι] (h : S.machine.Reachable s) : s.Guarded :=
  h.invariant guarded_start fun _ _ _ hs _ hstep => guarded_step hs hstep

/-- The worker has left its loop. -/
def WorkerPc.Over : WorkerPc → Prop
  | .lastExchange | .lastNotice _ | .returned => True
  | _ => False

/-- The worker may have entries in hand. -/
def WorkerPc.Drains : WorkerPc → Prop
  | .emptyTest | .write => True
  | _ => False

/-- The worker has made its last exchange. -/
def WorkerPc.Settled : WorkerPc → Prop
  | .lastNotice _ | .returned => True
  | _ => False

theorem WorkerPc.Settled.ended {pc : WorkerPc} (h : pc.Settled) : pc.Over := by
  cases pc
  case lastNotice | returned => trivial
  all_goals exact h.elim

/-- Once the worker has left its loop, no entry and no call can still come. -/
structure State.Closing (s : State ι) : Prop where
  stopped : s.stopRequested = true → s.accepting = false
  begun : s.destructor ≠ .notCalled → s.accepting = false
  joined : s.destructor = .close ∨ s.destructor = .returned → s.worker = .returned
  swapped : s.worker = .emptyTest → s.queue = []
  idle : ¬ s.worker.Drains → s.pending = []
  ended : s.worker.Over → s.stopRequested = true ∧ s.queue = [] ∧ ∀ i, ¬ (s.calls i).Admitted
  taken : s.worker.Settled → s.droppedPending = 0

theorem State.Closing.not_joined (hs : s.Closing) (hpc : s.worker ≠ .returned) {P : Prop}
    (hdone : s.destructor = .close ∨ s.destructor = .returned) : P :=
  (hpc (hs.joined hdone)).elim

theorem closing_worker (hguard : s.Guarded) (hs : s.Closing)
    (h : S.workerStep clock threadId s = some t) : t.Closing := by
  have hjoined := fun (hpc : s.worker ≠ .returned) {P : Prop} => hs.not_joined hpc (P := P)
  obtain ⟨hstopped, hbegun, -, hswapped, hidle, hended, htaken⟩ := hs
  cases moves_of_workerStep h with
  | wake hpc =>
    have hnone : s.pending = [] := hidle (by rw [hpc]; exact id)
    exact ⟨hstopped, hbegun, hjoined (by simp [hpc]), nofun, fun _ => hnone, False.elim,
      False.elim⟩
  | swap hpc =>
    have hnone : s.pending = [] := hidle (by rw [hpc]; exact id)
    exact ⟨hstopped, hbegun, hjoined (by simp [hpc]), fun _ => hnone,
      fun hdrains => (hdrains trivial).elim, False.elim, False.elim⟩
  | leave hpc hempty hstop =>
    have hqueue := hswapped hpc
    have hout := hguard.not_holds (by rw [hpc]; trivial)
    exact ⟨hstopped, hbegun, hjoined (by simp [hpc]), nofun, fun _ => hempty,
      fun _ => ⟨hstop, hqueue, fun i hin => hout i hin.holds⟩, False.elim⟩
  | goOn hpc =>
    exact ⟨hstopped, hbegun, hjoined (by simp [hpc]), nofun,
      fun hdrains => (hdrains trivial).elim, False.elim, False.elim⟩
  | write hpc =>
    rw [put_frame]
    refine ⟨hstopped, hbegun, hjoined (by simp [hpc]), ?_, ?_, ?_, ?_⟩
    all_goals dsimp only
    all_goals rw [hpc]
    · exact nofun
    · exact fun hdrains => (hdrains trivial).elim
    · exact False.elim
    · exact False.elim
  | written hpc hempty =>
    exact ⟨hstopped, hbegun, hjoined (by simp [hpc]), nofun, fun _ => hempty, False.elim,
      False.elim⟩
  | exchange hpc hnext =>
    have hnone : s.pending = [] := hidle (by rw [hpc]; exact id)
    rcases hnext with rfl | ⟨rfl, -⟩
    · exact ⟨hstopped, hbegun, hjoined (by simp [hpc]), nofun, fun _ => hnone, False.elim,
        False.elim⟩
    · exact ⟨hstopped, hbegun, hjoined (by simp [hpc]), nofun, fun _ => hnone, False.elim,
        False.elim⟩
  | notice hpc =>
    have hnone : s.pending = [] := hidle (by rw [hpc]; exact id)
    rw [Setup.writeDroppedNotice, put_frame]
    exact ⟨hstopped, hbegun, hjoined (by simp [hpc]), nofun, fun _ => hnone, False.elim,
      False.elim⟩
  | lastExchange hpc hnext =>
    have hnone : s.pending = [] := hidle (by rw [hpc]; exact id)
    have hover := hended (by rw [hpc]; trivial)
    rcases hnext with rfl | ⟨rfl, -⟩
    · exact ⟨hstopped, hbegun, hjoined (by simp [hpc]), nofun, fun _ => hnone, fun _ => hover,
        fun _ => rfl⟩
    · exact ⟨hstopped, hbegun, fun _ => rfl, nofun, fun _ => hnone, fun _ => hover, fun _ => rfl⟩
  | lastNotice hpc =>
    have hnone : s.pending = [] := hidle (by rw [hpc]; exact id)
    have hover := hended (by rw [hpc]; trivial)
    have hzero := htaken (by rw [hpc]; trivial)
    rw [Setup.writeDroppedNotice, put_frame]
    exact ⟨hstopped, hbegun, fun _ => rfl, nofun, fun _ => hnone, fun _ => hover, fun _ => hzero⟩

section

variable [DecidableEq ι]

/-- A call that is not past the check leaves the other threads where they are. -/
theorem State.Closing.goto (hs : s.Closing) (i : ι) (pc : CallPc)
    (hpc : pc.Admitted → ¬ s.worker.Over) : (s.goto i pc).Closing where
  stopped := hs.stopped
  begun := hs.begun
  joined := hs.joined
  swapped := hs.swapped
  idle := hs.idle
  ended hover := by
    obtain ⟨hstop, hqueue, hout⟩ := hs.ended hover
    refine ⟨hstop, hqueue, fun j => ?_⟩
    by_cases hj : j = i
    · subst hj
      rw [State.goto_calls, Function.update_self]
      exact fun hin => hpc hin hover
    · rw [State.goto_calls, Function.update_of_ne hj]
      exact hout j
  taken := hs.taken

theorem closing_log (hguard : s.Guarded) (hs : s.Closing)
    (h : S.logStep i clock threadId s = some t) : t.Closing := by
  have hadmitted (hin : (s.calls i).Admitted) : ¬ s.worker.Over := fun hover =>
    (hs.ended hover).2.2 i hin
  cases moves_of_logStep h with
  | accept | refuse | makeEntry => exact hs.goto i _ False.elim
  | @lock entry _ _ =>
    have hmoved := hs.goto i (.recheck entry) False.elim
    exact { hmoved with }
  | pass _ haccepting =>
    refine hs.goto i _ fun _ hover => ?_
    have hrefusing := hs.stopped (hs.ended hover).1
    rw [haccepting] at hrefusing
    cases hrefusing
  | turnAway =>
    have hmoved := hs.goto i .refused False.elim
    exact { hmoved with }
  | full hpc =>
    have hrunning := hadmitted (by rw [hpc]; trivial)
    exact hs.goto i _ fun _ => hrunning
  | @enqueue entry hpc =>
    have hrunning := hadmitted (by rw [hpc]; trivial)
    have hmoved := hs.goto i (.queued entry) False.elim
    refine ⟨hmoved.stopped, hmoved.begun, hmoved.joined, ?_, hmoved.idle,
      fun hover => (hrunning hover).elim, hmoved.taken⟩
    intro hswap
    have hholds := (hguard.call i).mp (by rw [hpc]; trivial)
    have hworker := hguard.worker.mp (by rw [show s.worker = .emptyTest from hswap]; trivial)
    rw [hholds] at hworker
    cases hworker
  | countPending hpc =>
    have hrunning := hadmitted (by rw [hpc]; trivial)
    have hmoved := hs.goto i .countTotal fun _ => hrunning
    exact { hmoved with taken := fun hsettled => (hrunning hsettled.ended).elim }
  | countTotal =>
    have hmoved := hs.goto i .dropped False.elim
    exact { hmoved with }

end

theorem closing_destroy (hs : s.Closing) (h : destroyStep s = some t) : t.Closing := by
  obtain ⟨hstopped, hbegun, hjoined, hswapped, hidle, hended, htaken⟩ := hs
  unfold destroyStep at h
  split at h
  · cases h
    exact ⟨fun _ => rfl, fun _ => rfl, nofun, hswapped, hidle, hended, htaken⟩
  · next hpc =>
    cases h
    have hrefuses := hbegun (by rw [hpc]; exact nofun)
    exact ⟨fun _ => hrefuses, fun _ => hrefuses, nofun, hswapped, hidle,
      fun hover => ⟨rfl, (hended hover).2⟩, htaken⟩
  · next hpc =>
    split at h
    · next hreturned =>
      cases h
      have hrefuses := hbegun (by rw [hpc]; exact nofun)
      exact ⟨hstopped, fun _ => hrefuses, fun _ => hreturned, hswapped, hidle, hended, htaken⟩
    · cases h
  · next hpc =>
    cases h
    have hrefuses := hbegun (by rw [hpc]; exact nofun)
    exact ⟨hstopped, fun _ => hrefuses, fun _ => hjoined (.inl hpc), hswapped, hidle, hended, htaken⟩
  · cases h

theorem closing_start : S.start.Closing where
  stopped := nofun
  begun hbegun := (hbegun rfl).elim
  joined := nofun
  swapped := nofun
  idle _ := rfl
  ended := False.elim
  taken := False.elim

theorem closing_step [DecidableEq ι] {a : Action ι} (hguard : s.Guarded) (hs : s.Closing)
    (h : S.machine.step s a = some t) : t.Closing := by
  cases a with
  | log i clock threadId => exact closing_log hguard hs h
  | worker clock threadId => exact closing_worker hguard hs h
  | destroy => exact closing_destroy hs h

theorem closing [DecidableEq ι] (h : S.machine.Reachable s) : s.Closing :=
  h.invariant_with closing_start guarded_start (fun _ _ _ hs _ hstep => guarded_step hs hstep)
    fun _ _ _ hguard hs _ hstep => closing_step hguard hs hstep

/-- Between the test that found the queue full and the return. -/
def CallPc.Discards : CallPc → Prop
  | .countPending | .countTotal => True
  | _ => False

theorem CallPc.Discards.holds {pc : CallPc} (h : pc.Discards) : pc.Holds := by
  cases pc
  case countPending | countTotal => trivial
  all_goals exact h.elim

def CallPc.carried : CallPc → Option Entry
  | .lock entry | .recheck entry | .sizeTest entry | .queued entry => some entry
  | _ => none

/-- The entry is made of what the call was given. -/
def Setup.Made (S : Setup ι) (call : ι × Entry) : Prop :=
  call.2.message = S.message call.1 ∧ call.2.level = S.level call.1

/-- The records of the enqueued and of the discarded calls. -/
structure State.Recorded (S : Setup ι) (s : State ι) : Prop where
  made : ∀ i entry, (s.calls i).carried = some entry → S.Made (i, entry)
  enqueued_nodup : (s.enqueued.map Prod.fst).Nodup
  mem_enqueued : ∀ i entry, (i, entry) ∈ s.enqueued ↔ s.calls i = .queued entry
  discarded_nodup : (s.discarded.map Prod.fst).Nodup
  mem_discarded : ∀ i, i ∈ s.discarded.map Prod.fst ↔ s.calls i = .dropped
  total : s.droppedTotal = s.discarded.length % 2 ^ 64
  crowded : ∀ i, (s.calls i).Discards → S.queueCapacity ≤ s.queue.length
  full : ∀ call ∈ s.discarded, S.queueCapacity ≤ call.2

theorem recorded_start : S.start.Recorded S where
  made := nofun
  enqueued_nodup := List.nodup_nil
  mem_enqueued _ _ := iff_of_false List.not_mem_nil nofun
  discarded_nodup := List.nodup_nil
  mem_discarded _ := iff_of_false List.not_mem_nil nofun
  total := rfl
  crowded _ := False.elim
  full := nofun

/-- The worker leaves the calls, their records and the destructor alone. -/
theorem workerStep_frame (h : S.workerStep clock threadId s = some t) :
    t.calls = s.calls ∧ t.enqueued = s.enqueued ∧ t.discarded = s.discarded ∧
      t.droppedTotal = s.droppedTotal ∧ t.stopRequested = s.stopRequested ∧
      t.destructor = s.destructor ∧ (t.queue = s.queue ∨ s.worker = .swap) := by
  cases moves_of_workerStep h with
  | swap hpc => exact ⟨rfl, rfl, rfl, rfl, rfl, rfl, .inr hpc⟩
  | write =>
    rw [put_frame]
    exact ⟨rfl, rfl, rfl, rfl, rfl, rfl, .inl rfl⟩
  | notice | lastNotice =>
    rw [Setup.writeDroppedNotice, put_frame]
    exact ⟨rfl, rfl, rfl, rfl, rfl, rfl, .inl rfl⟩
  | wake | leave | goOn | written | exchange | lastExchange =>
    exact ⟨rfl, rfl, rfl, rfl, rfl, rfl, .inl rfl⟩

theorem recorded_worker (hguard : s.Guarded) (hs : s.Recorded S)
    (h : S.workerStep clock threadId s = some t) : t.Recorded S := by
  obtain ⟨hcalls, henqueued, hdiscarded, htotal, -, -, hqueue⟩ := workerStep_frame h
  obtain ⟨hmade, hnodup, hmem, hnodup', hmem', hcount, hcrowded, hfull⟩ := hs
  rw [← hcalls] at hmade hmem hmem' hcrowded
  rw [← henqueued] at hnodup hmem
  rw [← hdiscarded] at hnodup' hmem' hcount hfull
  rw [← htotal] at hcount
  refine ⟨hmade, hnodup, hmem, hnodup', hmem', hcount, ?_, hfull⟩
  intro i hin
  rcases hqueue with hsame | hswap
  · rw [hsame]
    exact hcrowded i hin
  · rw [hcalls] at hin
    exact (hguard.not_holds (by rw [hswap]; trivial) i hin.holds).elim

section

variable [DecidableEq ι]

/-- A call that goes on without being enqueued or discarded. -/
theorem State.Recorded.goto (hs : s.Recorded S) (i : ι) (pc : CallPc)
    (hmade : ∀ entry, pc.carried = some entry → S.Made (i, entry))
    (hqueued : ∀ entry, s.calls i ≠ .queued entry ∧ pc ≠ .queued entry)
    (hdropped : s.calls i ≠ .dropped ∧ pc ≠ .dropped)
    (hcrowded : pc.Discards → S.queueCapacity ≤ s.queue.length) :
    (s.goto i pc).Recorded S where
  made j entry hentry := by
    by_cases hj : j = i
    · subst hj
      rw [State.goto_calls, Function.update_self] at hentry
      exact hmade entry hentry
    · rw [State.goto_calls, Function.update_of_ne hj] at hentry
      exact hs.made j entry hentry
  enqueued_nodup := hs.enqueued_nodup
  mem_enqueued j entry := by
    by_cases hj : j = i
    · subst hj
      rw [State.goto_calls, Function.update_self]
      exact iff_of_false (fun hmem => (hqueued entry).1 ((hs.mem_enqueued j entry).mp hmem))
        (hqueued entry).2
    · rw [State.goto_calls, Function.update_of_ne hj]
      exact hs.mem_enqueued j entry
  discarded_nodup := hs.discarded_nodup
  mem_discarded j := by
    by_cases hj : j = i
    · subst hj
      rw [State.goto_calls, Function.update_self]
      exact iff_of_false (fun hmem => hdropped.1 ((hs.mem_discarded j).mp hmem)) hdropped.2
    · rw [State.goto_calls, Function.update_of_ne hj]
      exact hs.mem_discarded j
  total := hs.total
  crowded j hin := by
    by_cases hj : j = i
    · subst hj
      rw [State.goto_calls, Function.update_self] at hin
      exact hcrowded hin
    · rw [State.goto_calls, Function.update_of_ne hj] at hin
      exact hs.crowded j hin
  full := hs.full

theorem State.Recorded.enqueue (hs : s.Recorded S) {entry : Entry}
    (hpc : s.calls i = .sizeTest entry) :
    State.Recorded S { s.goto i (.queued entry) with
      queue := s.queue ++ [(i, entry)]
      holder := none
      enqueued := s.enqueued ++ [(i, entry)] } where
  made j other hother := by
    by_cases hj : j = i
    · subst hj
      rw [State.goto_calls, Function.update_self] at hother
      cases hother
      exact hs.made j entry (by rw [hpc]; rfl)
    · rw [State.goto_calls, Function.update_of_ne hj] at hother
      exact hs.made j other hother
  enqueued_nodup := by
    rw [List.map_append, List.map_singleton, List.nodup_append']
    refine ⟨hs.enqueued_nodup, List.nodup_singleton _, ?_⟩
    rw [List.disjoint_singleton]
    intro hmem
    obtain ⟨call, hcall, hi⟩ := List.mem_map.mp hmem
    have hqueued := (hs.mem_enqueued call.1 call.2).mp hcall
    rw [hi, hpc] at hqueued
    cases hqueued
  mem_enqueued j other := by
    rw [List.mem_append, List.mem_singleton, hs.mem_enqueued]
    by_cases hj : j = i
    · subst hj
      rw [State.goto_calls, Function.update_self, hpc]
      simp [eq_comm]
    · rw [State.goto_calls, Function.update_of_ne hj]
      simp [hj]
  discarded_nodup := hs.discarded_nodup
  mem_discarded j := by
    by_cases hj : j = i
    · subst hj
      refine (hs.mem_discarded j).trans ?_
      rw [State.goto_calls, Function.update_self, hpc]
      simp
    · rw [State.goto_calls, Function.update_of_ne hj]
      exact hs.mem_discarded j
  total := hs.total
  crowded j hin := by
    by_cases hj : j = i
    · subst hj
      rw [State.goto_calls, Function.update_self] at hin
      exact hin.elim
    · rw [State.goto_calls, Function.update_of_ne hj] at hin
      have hfull := hs.crowded j hin
      rw [List.length_append]
      omega
  full := hs.full

theorem State.Recorded.discard (hs : s.Recorded S) (hpc : s.calls i = .countTotal) :
    State.Recorded S { s.goto i .dropped with
      droppedTotal := fetchAdd s.droppedTotal 1
      holder := none
      discarded := s.discarded ++ [(i, s.queue.length)] } where
  made j other hother := by
    by_cases hj : j = i
    · subst hj
      rw [State.goto_calls, Function.update_self] at hother
      cases hother
    · rw [State.goto_calls, Function.update_of_ne hj] at hother
      exact hs.made j other hother
  enqueued_nodup := hs.enqueued_nodup
  mem_enqueued j other := by
    by_cases hj : j = i
    · subst hj
      refine (hs.mem_enqueued j other).trans ?_
      rw [State.goto_calls, Function.update_self, hpc]
      simp
    · rw [State.goto_calls, Function.update_of_ne hj]
      exact hs.mem_enqueued j other
  discarded_nodup := by
    rw [List.map_append, List.map_singleton, List.nodup_append']
    refine ⟨hs.discarded_nodup, List.nodup_singleton _, ?_⟩
    rw [List.disjoint_singleton, hs.mem_discarded, hpc]
    exact nofun
  mem_discarded j := by
    rw [List.map_append, List.mem_append, hs.mem_discarded]
    by_cases hj : j = i
    · subst hj
      rw [State.goto_calls, Function.update_self, hpc]
      simp
    · rw [State.goto_calls, Function.update_of_ne hj]
      simp [hj]
  total := by
    rw [List.length_append, hs.total]
    exact fetchAdd_mod _ 1
  crowded j hin := by
    by_cases hj : j = i
    · subst hj
      rw [State.goto_calls, Function.update_self] at hin
      exact hin.elim
    · rw [State.goto_calls, Function.update_of_ne hj] at hin
      exact hs.crowded j hin
  full call hmem := by
    rcases List.mem_append.mp hmem with hmem | hmem
    · exact hs.full call hmem
    · rw [List.mem_singleton.mp hmem]
      exact hs.crowded i (by rw [hpc]; trivial)

theorem recorded_log (hs : s.Recorded S)
    (h : S.logStep i clock threadId s = some t) : t.Recorded S := by
  cases moves_of_logStep h with
  | accept hpc | refuse hpc =>
    exact hs.goto i _ nofun (by simp [hpc]) (by simp [hpc]) False.elim
  | makeEntry hpc =>
    refine hs.goto i _ ?_ (by simp [hpc]) (by simp [hpc]) False.elim
    intro entry hentry
    cases hentry
    exact ⟨rfl, rfl⟩
  | @lock entry hpc _ =>
    have hmade := hs.made i entry (by rw [hpc]; rfl)
    have hmoved := hs.goto i (.recheck entry) (by rintro _ ⟨⟩; exact hmade)
      (by simp [hpc]) (by simp [hpc]) False.elim
    exact { hmoved with }
  | @pass entry hpc _ =>
    have hmade := hs.made i entry (by rw [hpc]; rfl)
    exact hs.goto i _ (by rintro _ ⟨⟩; exact hmade) (by simp [hpc]) (by simp [hpc]) False.elim
  | turnAway hpc =>
    have hmoved := hs.goto i .refused nofun (by simp [hpc]) (by simp [hpc]) False.elim
    exact { hmoved with }
  | full hpc hfull => exact hs.goto i _ nofun (by simp [hpc]) (by simp [hpc]) fun _ => hfull
  | enqueue hpc => exact hs.enqueue hpc
  | countPending hpc =>
    have hmoved := hs.goto i .countTotal nofun (by simp [hpc]) (by simp [hpc])
      fun _ => hs.crowded i (by rw [hpc]; trivial)
    exact { hmoved with }
  | countTotal hpc => exact hs.discard hpc

theorem recorded (h : S.machine.Reachable s) : s.Recorded S := by
  refine h.invariant_with (J := State.Guarded) recorded_start guarded_start
    (fun _ _ _ hs _ hstep => guarded_step hs hstep) ?_
  intro s a t hguard hs _ hstep
  cases a with
  | log i clock threadId => exact recorded_log hs hstep
  | worker clock threadId => exact recorded_worker hguard hs hstep
  | destroy =>
    rw [destroyStep_frame hstep]
    exact { hs with }

end

end AsyncFileLogger
end Infrastructure
end LogGenerator
