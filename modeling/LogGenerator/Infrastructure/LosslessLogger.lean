import LogGenerator.Infrastructure.AsyncFileLogger

/-!
# The asynchronous logger loses nothing

What the lines show, where every accepted entry and every discarded call ends up, and
that the worker and the destructor get there.
-/

namespace LogGenerator
namespace Infrastructure

open Ascii Application

namespace AsyncFileLogger

variable {ι : Type} {S : Setup ι} {s t : State ι} {i : ι} {clock : ℤ} {threadId : ℕ}

/-- What a worker has taken from the count of discarded entries and not yet announced. -/
def WorkerPc.inHand : WorkerPc → ℕ
  | .notice count | .lastNotice count => count
  | _ => 0

/-- What a call has added to the pending count and not yet to the total. -/
def CallPc.owed : CallPc → ℕ
  | .countTotal => 1
  | _ => 0

def State.owed (s : State ι) : ℕ :=
  match s.holder with
  | some (.call i) => (s.calls i).owed
  | _ => 0

theorem owed_of_holds (hguard : s.Guarded) (h : (s.calls i).Holds) : s.owed = (s.calls i).owed := by
  rw [State.owed, (hguard.call i).mp h]

/-- The lines that went to a path, one after another. -/
def Setup.content (S : Setup ι) (writes : List (Write ι)) (path : Bytes) : Bytes :=
  (writes.filter fun w => S.path (dateKey S.localTime w.record.timestamp) = path).flatMap
    fun w => formatEntry S.localTime w.record

/-- Every entry is written, in hand or in the queue, and every discarded call is announced,
in hand or pending as long as the counts do not wrap. -/
structure State.Accounted (S : Setup ι) (s : State ι) : Prop where
  order : s.written ++ s.pending ++ s.queue = s.enqueued
  notices : s.discarded.length + s.owed < 2 ^ 64 →
    s.announced + s.worker.inHand + s.droppedPending = s.discarded.length + s.owed
  files : ∀ path, s.files path = S.files path ++ S.content s.writes path

theorem openFor_activeDate (S : Setup ι) (timestamp : ℤ) (s : State ι) :
    (S.openFor timestamp s).activeDate = dateKey S.localTime timestamp := by
  unfold Setup.openFor
  dsimp only
  split_ifs with h
  · simp only [Bool.and_eq_true, decide_eq_true_eq] at h
    exact h.2.symm
  · rfl

theorem openFor_files (S : Setup ι) (timestamp : ℤ) (s : State ι) :
    (S.openFor timestamp s).files = s.files := by
  unfold Setup.openFor
  dsimp only
  split_ifs
  · rfl
  · rfl

theorem put_files (hs : ∀ path, s.files path = S.files path ++ S.content s.writes path)
    (w : Write ι) (path : Bytes) :
    (S.put w s).files path = S.files path ++ S.content (s.writes ++ [w]) path := by
  simp only [Setup.put, Setup.writeEntry, openFor_activeDate, openFor_files]
  rw [Setup.content, List.filter_append, List.flatMap_append, ← Setup.content, ← List.append_assoc]
  by_cases hpath : S.path (dateKey S.localTime w.record.timestamp) = path
  · subst hpath
    rw [Function.update_self, hs]
    simp
  · rw [Function.update_of_ne (Ne.symm hpath), hs]
    simp [hpath]

theorem put_written (S : Setup ι) (w : Write ι) (s : State ι) :
    (S.put w s).written = s.written ++ w.call?.toList := by
  rw [put_frame]
  simp only [State.written, List.filterMap_append]
  cases hcall : w.call? with
  | none => simp [hcall]
  | some call => simp [hcall]

theorem put_announced (S : Setup ι) (w : Write ι) (s : State ι) :
    (S.put w s).announced = s.announced + w.announced := by
  rw [put_frame]
  simp [State.announced]

/-- A line is written, and the worker goes on with what is left. -/
theorem State.Accounted.put (hs : s.Accounted S) (w : Write ι) {rest : List (ι × Entry)}
    (worker : WorkerPc) (hrest : w.call?.toList ++ rest = s.pending)
    (hworker : w.announced + worker.inHand = s.worker.inHand) :
    State.Accounted S { S.put w s with pending := rest, worker := worker } where
  order := by
    change (S.put w s).written ++ rest ++ (S.put w s).queue = (S.put w s).enqueued
    rw [put_written, put_frame, List.append_assoc s.written, hrest]
    exact hs.order
  notices := by
    change (S.put w s).discarded.length + (S.put w s).owed < 2 ^ 64 →
      (S.put w s).announced + worker.inHand + (S.put w s).droppedPending =
        (S.put w s).discarded.length + (S.put w s).owed
    have hnotices := hs.notices
    rw [← hworker] at hnotices
    rw [put_announced, put_frame]
    change s.discarded.length + s.owed < 2 ^ 64 →
      s.announced + w.announced + worker.inHand + s.droppedPending = s.discarded.length + s.owed
    omega
  files := by
    intro path
    change (S.put w s).files path = S.files path ++ S.content (S.put w s).writes path
    rw [put_files hs.files, put_frame]

/-- The worker takes over the count of discarded entries. -/
theorem State.Accounted.take (hs : s.Accounted S) {worker : WorkerPc}
    (hidle : s.worker.inHand = 0) (hworker : worker.inHand = s.droppedPending) :
    State.Accounted S { s with droppedPending := 0, worker := worker } where
  order := hs.order
  notices := by
    change s.discarded.length + s.owed < 2 ^ 64 →
      s.announced + worker.inHand + 0 = s.discarded.length + s.owed
    have hnotices := hs.notices
    omega
  files := hs.files

/-- A notice is written, with nothing in hand. -/
theorem State.Accounted.notice (hs : s.Accounted S) {count : ℕ} (clock : ℤ) (threadId : ℕ)
    {worker : WorkerPc} (hnone : s.pending = []) (hcount : s.worker.inHand = count)
    (hworker : worker.inHand = 0) :
    State.Accounted S { S.writeDroppedNotice count clock threadId s with worker := worker } := by
  have hput := hs.put (.notice count ⟨clock, .warning, threadId, discardedText count⟩) worker
    (by rw [hnone]; rfl : _ ++ [] = s.pending) (by rw [hcount, hworker]; rfl)
  rw [Setup.writeDroppedNotice, put_frame] at *
  rw [hnone]
  exact hput

theorem accounted_worker (hguard : s.Guarded) (hclosing : s.Closing) (hs : s.Accounted S)
    (h : S.workerStep clock threadId s = some t) : t.Accounted S := by
  cases moves_of_workerStep h with
  | wake hpc hfree =>
    refine ⟨hs.order, ?_, hs.files⟩
    simpa [State.owed, State.announced, hfree, hpc, WorkerPc.inHand] using hs.notices
  | swap hpc =>
    have hnone : s.pending = [] := hclosing.idle (by rw [hpc]; exact id)
    have hholder := hguard.worker.mp (by rw [hpc]; trivial)
    refine ⟨?_, ?_, hs.files⟩
    · simpa [State.written, hnone] using hs.order
    · simpa [State.owed, State.announced, hholder, hpc, WorkerPc.inHand] using hs.notices
  | leave hpc | goOn hpc =>
    have hholder := hguard.worker.mp (by rw [hpc]; trivial)
    refine ⟨hs.order, ?_, hs.files⟩
    simpa [State.owed, State.announced, hholder, hpc, WorkerPc.inHand] using hs.notices
  | @write i entry rest hpc hpending =>
    have hput := hs.put (.entry i entry) .write hpending.symm (by rw [hpc]; rfl)
    rw [put_frame] at hput ⊢
    rw [hpc]
    exact hput
  | written hpc =>
    refine ⟨hs.order, ?_, hs.files⟩
    simpa [State.owed, State.announced, hpc, WorkerPc.inHand] using hs.notices
  | exchange hpc hnext | lastExchange hpc hnext =>
    refine hs.take (by rw [hpc]; rfl) ?_
    rcases hnext with rfl | ⟨rfl, hzero⟩
    · rfl
    · exact hzero.symm
  | notice hpc | lastNotice hpc =>
    have hnone : s.pending = [] := hclosing.idle (by rw [hpc]; exact id)
    exact hs.notice clock threadId hnone (by rw [hpc]; rfl) rfl

section

variable [DecidableEq ι]

theorem owed_goto_of_holds (hguard : s.Guarded) (h : (s.calls i).Holds) (pc : CallPc) :
    (s.goto i pc).owed = pc.owed := by
  have hholder : (s.goto i pc).holder = some (.call i) := (hguard.call i).mp h
  rw [State.owed, hholder]
  simp

theorem owed_goto_of_not_holds (hguard : s.Guarded) (h : ¬ (s.calls i).Holds) (pc : CallPc) :
    (s.goto i pc).owed = s.owed := by
  unfold State.owed
  have hholder : (s.goto i pc).holder = s.holder := rfl
  rw [hholder]
  split
  · next j hj =>
    have hother : j ≠ i := fun heq => h ((hguard.call i).mpr (heq ▸ hj))
    rw [State.goto_calls, Function.update_of_ne hother]
  · rfl

/-- A call goes on and its debt stays. -/
theorem State.Accounted.goto (hguard : s.Guarded) (hs : s.Accounted S) {pc : CallPc}
    (hpc : pc.owed = (s.calls i).owed) : (s.goto i pc).Accounted S where
  order := hs.order
  notices := by
    have howed : (s.goto i pc).owed = s.owed := by
      by_cases hin : (s.calls i).Holds
      · rw [owed_goto_of_holds hguard hin, hpc, owed_of_holds hguard hin]
      · exact owed_goto_of_not_holds hguard hin pc
    rw [howed]
    exact hs.notices
  files := hs.files

theorem accounted_log (hguard : s.Guarded) (hs : s.Accounted S)
    (h : S.logStep i clock threadId s = some t) : t.Accounted S := by
  have hnotices := hs.notices
  cases moves_of_logStep h with
  | accept hpc | refuse hpc | makeEntry hpc | pass hpc | full hpc =>
    exact hs.goto hguard (by rw [hpc]; rfl)
  | lock hpc hfree =>
    refine ⟨hs.order, ?_, hs.files⟩
    simpa [State.owed, State.announced, State.goto, hfree, CallPc.owed] using hnotices
  | turnAway hpc =>
    have howed := owed_of_holds hguard (i := i) (by rw [hpc]; trivial)
    rw [hpc] at howed
    rw [howed] at hnotices
    exact ⟨hs.order, hnotices, hs.files⟩
  | @enqueue entry hpc =>
    have howed := owed_of_holds hguard (i := i) (by rw [hpc]; trivial)
    rw [hpc] at howed
    rw [howed] at hnotices
    refine ⟨?_, hnotices, hs.files⟩
    change s.written ++ s.pending ++ (s.queue ++ [(i, entry)]) = s.enqueued ++ [(i, entry)]
    rw [← hs.order, List.append_assoc, List.append_assoc, List.append_assoc]
  | countPending hpc =>
    have hin : (s.calls i).Holds := by rw [hpc]; trivial
    have howed := owed_of_holds hguard hin
    have howed' := owed_goto_of_holds hguard hin .countTotal
    rw [hpc] at howed
    refine ⟨hs.order, ?_, hs.files⟩
    change s.discarded.length + (s.goto i .countTotal).owed < 2 ^ 64 →
      s.announced + s.worker.inHand + fetchAdd s.droppedPending 1 =
        s.discarded.length + (s.goto i .countTotal).owed
    simp only [howed, howed', CallPc.owed] at hnotices ⊢
    intro hroom
    rw [fetchAdd_of_lt (by omega)]
    omega
  | countTotal hpc =>
    have howed := owed_of_holds hguard (i := i) (by rw [hpc]; trivial)
    rw [hpc] at howed
    rw [howed] at hnotices
    refine ⟨hs.order, ?_, hs.files⟩
    change (s.discarded ++ [(i, s.queue.length)]).length + 0 < 2 ^ 64 →
      s.announced + s.worker.inHand + s.droppedPending =
        (s.discarded ++ [(i, s.queue.length)]).length + 0
    rw [List.length_append]
    exact hnotices

theorem accounted (h : S.machine.Reachable s) : s.Accounted S := by
  have hstart : S.start.Accounted S := by
    refine ⟨rfl, fun _ => rfl, fun path => ?_⟩
    rw [Setup.content, Setup.start, List.filter_nil, List.flatMap_nil, List.append_nil]
  refine h.invariant_with (J := fun s => s.Guarded ∧ s.Closing) hstart
    ⟨guarded_start, closing_start⟩ ?_ ?_
  · exact fun s a t hs _ hstep => ⟨guarded_step hs.1 hstep, closing_step hs.1 hs.2 hstep⟩
  · intro s a t hJ hs _ hstep
    cases a with
    | log i clock threadId => exact accounted_log hJ.1 hs hstep
    | worker clock threadId => exact accounted_worker hJ.1 hJ.2 hs hstep
    | destroy =>
      rw [destroyStep_frame hstep]
      exact { hs with }

end

/-- What of a message stands in its line: no carriage return, and `\n` for each line feed. -/
inductive Escaped : Bytes → Bytes → Prop where
  | nil : Escaped [] []
  | carriageReturn {message text : Bytes} (h : Escaped message text) : Escaped (cr :: message) text
  | lineFeed {message text : Bytes} (h : Escaped message text) :
    Escaped (lf :: message) (bytes "\\n" ++ text)
  | other {b : UInt8} {message text : Bytes} (hcr : b ≠ cr) (hlf : b ≠ lf)
    (h : Escaped message text) : Escaped (b :: message) (b :: text)

theorem escaped_sanitize (message : Bytes) : Escaped message (sanitize message) := by
  induction message with
  | nil => exact .nil
  | cons b message ih =>
    unfold sanitize
    rw [List.flatMap_cons]
    split_ifs with hcr hlf
    · rw [hcr]
      exact .carriageReturn ih
    · rw [hlf]
      exact .lineFeed ih
    · exact .other hcr hlf ih

/-- A line that shows when an entry was made, its level, its thread and its message, and that ends
with its only line feed. -/
def Shows (localTime : ℤ → Tm) (entry : Entry) (line : Bytes) : Prop :=
  IsLine line ∧ ∃ text, Escaped entry.message text ∧
    line = bytes "[" ++ timestampBuffer localTime entry.timestamp ++ bytes "] [" ++
      logLevelName entry.level ++ bytes "] [T" ++ decimal entry.threadId ++ bytes "] " ++ text ++
        [lf]

theorem shows_formatEntry (localTime : ℤ → Tm) (entry : Entry) :
    Shows localTime entry (formatEntry localTime entry) :=
  ⟨isLine_formatEntry localTime entry, _, escaped_sanitize entry.message, rfl⟩

/-- A call leaves the worker, its lines, the destructor and the other calls alone. -/
theorem logStep_frame [DecidableEq ι] (h : S.logStep i clock threadId s = some t) :
    t.worker = s.worker ∧ t.pending = s.pending ∧ t.writes = s.writes ∧
      t.stopRequested = s.stopRequested ∧ t.destructor = s.destructor ∧
      ∀ j, j ≠ i → t.calls j = s.calls j := by
  have hothers (pc : CallPc) (j : ι) (hj : j ≠ i) : (s.goto i pc).calls j = s.calls j :=
    Function.update_of_ne hj _ _
  cases moves_of_logStep h
  all_goals exact ⟨rfl, rfl, rfl, rfl, rfl, hothers _⟩

/-- A notice is a warning with the number that it announces. -/
def Write.Worded : Write ι → Prop
  | .entry _ _ => True
  | .notice count written => written.level = .warning ∧ written.message = discardedText count

/-- The worker writes one line at a time. -/
theorem workerStep_writes (h : S.workerStep clock threadId s = some t) :
    t.writes = s.writes ∨ ∃ w : Write ι, t.writes = s.writes ++ [w] ∧ w.Worded := by
  cases moves_of_workerStep h with
  | write =>
    rw [put_frame]
    exact .inr ⟨_, rfl, trivial⟩
  | notice | lastNotice =>
    rw [Setup.writeDroppedNotice, put_frame]
    exact .inr ⟨_, rfl, rfl, rfl⟩
  | wake | swap | leave | goOn | written | exchange | lastExchange => exact .inl rfl

/-- Neither a call nor the destructor writes. -/
theorem step_writes [DecidableEq ι] {a : Action ι} (h : S.machine.step s a = some t) :
    t.writes = s.writes ∨ ∃ w : Write ι, t.writes = s.writes ++ [w] ∧ w.Worded := by
  cases a with
  | log i clock threadId => exact .inl (logStep_frame h).2.2.1
  | worker clock threadId => exact workerStep_writes h
  | destroy =>
    rw [destroyStep_frame h]
    exact .inl rfl

theorem worded [DecidableEq ι] (h : S.machine.Reachable s) : ∀ w ∈ s.writes, w.Worded := by
  have hstart : ∀ w ∈ S.start.writes, w.Worded := List.forall_mem_nil _
  refine h.invariant (I := fun s => ∀ w ∈ s.writes, w.Worded) hstart ?_
  intro s a t hs _ hstep
  rcases step_writes hstep with hsame | ⟨w, hnew, hw⟩
  · rw [hsame]
    exact hs
  · rw [hnew, List.forall_mem_append, List.forall_mem_singleton]
    exact ⟨hs, hw⟩

/-- While the worker has not returned, it can go on, or else the call that holds the mutex can. -/
theorem goes_on [DecidableEq ι] (hguard : s.Guarded) (hworker : s.worker ≠ .returned) (clock : ℤ)
    (threadId : ℕ) :
    (∃ t, S.machine.step s (.worker clock threadId) = some t) ∨
      ∃ i t, s.holder = some (.call i) ∧ S.machine.step s (.log i clock threadId) = some t := by
  have hcall {i : ι} (hheld : s.holder = some (.call i)) :
      ∃ t, S.machine.step s (.log i clock threadId) = some t := by
    have hholds := (hguard.call i).mpr hheld
    simp only [Setup.machine, Setup.logStep]
    cases hpc : s.calls i
    case recheck | sizeTest =>
      simp only
      split_ifs
      all_goals exact ⟨_, rfl⟩
    case countPending | countTotal => exact ⟨_, rfl⟩
    all_goals
      rw [hpc] at hholds
      exact hholds.elim
  simp only [Setup.machine, Setup.workerStep] at hcall ⊢
  cases hpc : s.worker
  case wait =>
    cases hholder : s.holder with
    | none => exact .inl ⟨_, rfl⟩
    | some thread =>
      cases thread with
      | worker =>
        have hholds := hguard.worker.mpr hholder
        rw [hpc] at hholds
        exact hholds.elim
      | call i =>
        obtain ⟨t, ht⟩ := hcall hholder
        exact .inr ⟨i, t, rfl, ht⟩
  case write =>
    cases hpending : s.pending
    all_goals exact .inl ⟨_, rfl⟩
  case returned => exact absurd hpc hworker
  all_goals exact .inl ⟨_, rfl⟩

/-- Where the worker is, and how many entries are queued, in its hands and written. -/
structure Progress where
  worker : WorkerPc
  queued : ℕ
  inHand : ℕ
  written : ℕ

def State.progress (s : State ι) : Progress :=
  ⟨s.worker, s.queue.length, s.pending.length, s.written.length⟩

/-- What a step of the worker does to the entries. -/
inductive Turn (stopRequested : Bool) : Progress → Progress → Prop where
  | wake (q p n : ℕ) : Turn stopRequested ⟨.wait, q, p, n⟩ ⟨.swap, q, p, n⟩
  | swap (q p n : ℕ) : Turn stopRequested ⟨.swap, q, p, n⟩ ⟨.emptyTest, p, q, n⟩
  | leave (q n : ℕ) : Turn stopRequested ⟨.emptyTest, q, 0, n⟩ ⟨.lastExchange, q, 0, n⟩
  | goOn (q p n : ℕ) (h : stopRequested = true → p ≠ 0) :
    Turn stopRequested ⟨.emptyTest, q, p, n⟩ ⟨.write, q, p, n⟩
  | write (q p n : ℕ) : Turn stopRequested ⟨.write, q, p + 1, n⟩ ⟨.write, q, p, n + 1⟩
  | written (q n : ℕ) : Turn stopRequested ⟨.write, q, 0, n⟩ ⟨.exchange, q, 0, n⟩
  | announce (q p n count : ℕ) : Turn stopRequested ⟨.exchange, q, p, n⟩ ⟨.notice count, q, p, n⟩
  | again (q p n : ℕ) : Turn stopRequested ⟨.exchange, q, p, n⟩ ⟨.wait, q, p, n⟩
  | noticed (q p n count : ℕ) : Turn stopRequested ⟨.notice count, q, p, n⟩ ⟨.wait, q, p, n⟩
  | announceLast (q p n count : ℕ) :
    Turn stopRequested ⟨.lastExchange, q, p, n⟩ ⟨.lastNotice count, q, p, n⟩
  | finish (q p n : ℕ) : Turn stopRequested ⟨.lastExchange, q, p, n⟩ ⟨.returned, q, p, n⟩
  | noticedLast (q p n count : ℕ) :
    Turn stopRequested ⟨.lastNotice count, q, p, n⟩ ⟨.returned, q, p, n⟩

theorem put_progress (S : Setup ι) (w : Write ι) (s : State ι) :
    (S.put w s).worker = s.worker ∧ (S.put w s).queue = s.queue ∧
      (S.put w s).pending = s.pending ∧
      (S.put w s).written.length = s.written.length + w.call?.toList.length := by
  have hwritten := congrArg List.length (put_written S w s)
  rw [List.length_append] at hwritten
  refine ⟨?_, ?_, ?_, hwritten⟩
  all_goals rw [put_frame]

theorem workerStep_turn (h : S.workerStep clock threadId s = some t) :
    Turn s.stopRequested s.progress t.progress := by
  have hnotice {count : ℕ} (worker : WorkerPc)
      (hturn : Turn s.stopRequested s.progress
        ⟨worker, s.queue.length, s.pending.length, s.written.length⟩) :
      Turn s.stopRequested s.progress
        { S.writeDroppedNotice count clock threadId s with worker := worker }.progress := by
    obtain ⟨-, hqueue, hpending, hwritten⟩ :=
      put_progress S (.notice count ⟨clock, .warning, threadId, discardedText count⟩) s
    change Turn _ _ ⟨worker, _, _, (S.put _ s).written.length⟩
    rw [hwritten]
    change Turn _ _ ⟨worker, (S.put _ s).queue.length, (S.put _ s).pending.length, _⟩
    rw [hqueue, hpending]
    exact hturn
  unfold State.progress at hnotice ⊢
  cases moves_of_workerStep h with
  | wake hpc =>
    rw [hpc]
    exact .wake _ _ _
  | swap hpc =>
    rw [hpc]
    exact .swap _ _ _
  | leave hpc hempty =>
    rw [hpc, hempty]
    exact .leave _ _
  | goOn hpc hleft =>
    rw [hpc]
    apply Turn.goOn
    exact fun hstop hzero => hleft hstop (List.length_eq_zero_iff.mp hzero)
  | @write i entry rest hpc hpending =>
    obtain ⟨hworker, hqueue, -, hwritten⟩ := put_progress S (.entry i entry) s
    change Turn _ _ ⟨(S.put _ s).worker, (S.put _ s).queue.length, rest.length,
      (S.put _ s).written.length⟩
    rw [hworker, hqueue, hwritten, hpc, hpending]
    exact .write _ _ _
  | written hpc hempty =>
    rw [hpc, hempty]
    exact .written _ _
  | exchange hpc hnext =>
    rw [hpc]
    rcases hnext with rfl | ⟨rfl, -⟩
    · exact .announce _ _ _ _
    · exact .again _ _ _
  | notice hpc =>
    rw [hpc] at hnotice ⊢
    exact hnotice _ (.noticed _ _ _ _)
  | lastExchange hpc hnext =>
    rw [hpc]
    rcases hnext with rfl | ⟨rfl, -⟩
    · exact .announceLast _ _ _ _
    · exact .finish _ _ _
  | lastNotice hpc =>
    rw [hpc] at hnotice ⊢
    exact hnotice _ (.noticedLast _ _ _ _)

/-- Nothing is in the worker's hands unless it drains; what it swaps for is then empty, and nothing
is left once it has gone out of its loop. -/
structure Progress.Closing (x : Progress) : Prop where
  idle : ¬ x.worker.Drains → x.inHand = 0
  swapped : x.worker = .emptyTest → x.queued = 0
  ended : x.worker.Over → x.queued = 0

theorem State.Closing.progress (hs : s.Closing) : s.progress.Closing where
  idle hdrains := List.length_eq_zero_iff.mpr (hs.idle hdrains)
  swapped hworker := List.length_eq_zero_iff.mpr (hs.swapped hworker)
  ended hover := List.length_eq_zero_iff.mpr (hs.ended hover).2.1

/-- How many steps the worker takes at most until `goal` entries are written. -/
def Progress.distance (goal : ℕ) (x : Progress) : ℕ :=
  if goal ≤ x.written then 0
  else
    goal - x.written +
      match x.worker with
      | .write => if goal ≤ x.written + x.inHand then 0 else 6
      | .exchange => 5
      | .notice _ => 4
      | .wait => 3
      | .swap => 2
      | .emptyTest => 1
      | .lastExchange | .lastNotice _ | .returned => 0

theorem Progress.distance_le (goal : ℕ) (x : Progress) : x.distance goal ≤ goal - x.written + 6 := by
  obtain ⟨worker, queued, inHand, written⟩ := x
  cases worker
  all_goals
    simp only [distance]
    split_ifs
    all_goals omega

theorem Turn.distance_le {stopRequested : Bool} {x y : Progress} {goal : ℕ}
    (h : Turn stopRequested x y) (hx : x.Closing) (hgoal : goal ≤ x.written + x.inHand + x.queued) :
    y.distance goal ≤ x.distance goal - 1 := by
  obtain ⟨hidle, hswapped, hended⟩ := hx
  cases h
  all_goals
    simp only [WorkerPc.Drains, WorkerPc.Over, not_true_eq_false, not_false_eq_true, forall_const,
      reduceCtorEq, false_implies] at hidle hswapped hended hgoal
    simp only [Progress.distance]
    split_ifs
    all_goals omega

theorem Progress.le_written_of_distance {goal : ℕ} {x : Progress} (h : x.distance goal = 0) :
    goal ≤ x.written := by
  by_contra hgoal
  rw [distance, if_neg hgoal, Nat.add_eq_zero_iff] at h
  omega

def Action.isWorker : Action ι → Bool
  | .worker _ _ => true
  | .log _ _ _ | .destroy => false

section

variable [DecidableEq ι]

theorem step_enqueued {a : Action ι} (h : S.machine.step s a = some t) :
    s.enqueued <+: t.enqueued := by
  cases a with
  | log i clock threadId =>
    cases moves_of_logStep h with
    | enqueue => exact List.prefix_append _ _
    | accept | refuse | makeEntry | lock | pass | turnAway | full | countPending | countTotal =>
      exact List.prefix_rfl
  | worker clock threadId =>
    rw [(workerStep_frame h).2.1]
  | destroy =>
    rw [destroyStep_frame h]

/-- The worker never goes away from writing what has been enqueued. -/
theorem step_distance {a : Action ι} {goal : ℕ} (hreachable : S.machine.Reachable s)
    (hgoal : goal ≤ s.enqueued.length) (h : S.machine.step s a = some t) :
    t.progress.distance goal ≤ s.progress.distance goal - (if a.isWorker then 1 else 0) := by
  cases a with
  | worker clock threadId =>
    have horder := congrArg List.length (accounted hreachable).order
    simp only [List.length_append] at horder
    have hroom : goal ≤ s.progress.written + s.progress.inHand + s.progress.queued := by
      unfold State.progress
      dsimp only
      omega
    exact (workerStep_turn h).distance_le (closing hreachable).progress hroom
  | log i clock threadId =>
    obtain ⟨hworker, hpending, hwrites, -⟩ := logStep_frame h
    unfold State.progress State.written Progress.distance
    rw [hworker, hpending, hwrites]
    exact Nat.le_refl _
  | destroy =>
    rw [destroyStep_frame h]
    exact Nat.le_refl _

/-- What has been enqueued is written within a bounded number of steps of the worker. -/
theorem flushed (h : S.machine.Reachable s) {actions : List (Action ι)}
    (hrun : S.machine.exec s actions = some t)
    (hturns : s.pending.length + s.queue.length + 6 ≤
      S.machine.urgentSteps (fun _ a => a.isWorker) s actions) : s.enqueued <+: t.written := by
  have hsteps : S.machine.Steps Machine.anyStep s t := .of_exec (fun _ _ _ => trivial) hrun
  have hgrows : s.enqueued <+: t.enqueued :=
    hsteps.invariant (I := fun u => s.enqueued <+: u.enqueued) List.prefix_rfl
      fun _ _ _ hu _ hstep => hu.trans (step_enqueued hstep)
  have hnearer (u : State ι) (a : Action ι) (v : State ι)
      (hu : S.machine.Reachable u ∧ s.enqueued.length ≤ u.enqueued.length)
      (hstep : S.machine.step u a = some v) :
      (S.machine.Reachable v ∧ s.enqueued.length ≤ v.enqueued.length) ∧
        v.progress.distance s.enqueued.length ≤
          u.progress.distance s.enqueued.length - (if a.isWorker then 1 else 0) :=
    ⟨⟨hu.1.tail a trivial hstep, hu.2.trans (step_enqueued hstep).length_le⟩,
      step_distance hu.1 hu.2 hstep⟩
  have hnear : t.progress.distance s.enqueued.length ≤ s.progress.distance s.enqueued.length -
      S.machine.urgentSteps (fun _ a => a.isWorker) s actions :=
    Machine.rank_le_sub_urgentSteps hnearer ⟨h, Nat.le_refl _⟩ hrun
  have hfar := s.progress.distance_le s.enqueued.length
  have horder := congrArg List.length (accounted h).order
  simp only [List.length_append] at horder
  have hwritten : s.enqueued.length ≤ t.written.length := by
    apply Progress.le_written_of_distance (x := t.progress)
    unfold State.progress at hfar hnear ⊢
    dsimp only at hfar hnear ⊢
    omega
  have hbefore : t.written <+: t.enqueued := by
    rw [← (accounted (h.trans hsteps)).order, List.append_assoc]
    exact List.prefix_append _ _
  exact List.prefix_of_prefix_length_le hgrows hbefore hwritten

end

/-- How many steps the worker takes at most once the stop has been requested. -/
def Progress.rank (x : Progress) : ℕ :=
  7 * x.queued + x.inHand +
    match x.worker with
    | .write => 8
    | .exchange => 7
    | .notice _ => 6
    | .wait => 5
    | .swap => 4
    | .emptyTest => 6 * x.inHand + 3
    | .lastExchange => 2
    | .lastNotice _ => 1
    | .returned => 0

theorem Turn.rank_lt {x y : Progress} (h : Turn true x y) (hx : x.Closing) : y.rank < x.rank := by
  obtain ⟨hidle, -, -⟩ := hx
  cases h
  case goOn hleft =>
    have hsome := hleft rfl
    simp only [Progress.rank]
    omega
  all_goals
    simp only [WorkerPc.Drains, not_true_eq_false, not_false_eq_true, forall_const,
      false_implies] at hidle
    simp only [Progress.rank]
    omega

/-- How many steps a call past the first check takes at most, and seven for the worker when it
enqueues its entry. -/
def CallPc.rank : CallPc → ℕ
  | .makeEntry => 13
  | .lock _ => 12
  | .recheck _ => 11
  | .sizeTest _ => 10
  | .countPending => 2
  | .countTotal => 1
  | .entered | .refused | .queued _ | .dropped => 0

def DestructorPc.rank : DestructorPc → ℕ
  | .notCalled => 4
  | .requestStop => 3
  | .join => 2
  | .close => 1
  | .returned => 0

theorem destroyStep_rank (h : destroyStep s = some t) :
    t.destructor.rank < s.destructor.rank ∧
      (s.stopRequested = true → t.stopRequested = true) := by
  unfold destroyStep at h
  split at h
  all_goals rename_i hat
  all_goals rw [hat]
  case h_3 =>
    split at h
    all_goals cases h
    exact ⟨Nat.lt_add_one _, fun hstop => hstop⟩
  case h_2 =>
    cases h
    exact ⟨Nat.lt_add_one _, fun _ => rfl⟩
  case h_5 => cases h
  all_goals
    cases h
    exact ⟨Nat.lt_add_one _, fun hstop => hstop⟩

def CallPc.isEntered : CallPc → Bool
  | .entered => true
  | _ => false

/-- All steps but the first checks of calls. -/
def urgent (s : State ι) : Action ι → Bool
  | .log i _ _ => !(s.calls i).isEntered
  | .worker _ _ | .destroy => true

section

variable [DecidableEq ι]

theorem logStep_rank (h : S.logStep i clock threadId s = some t)
    (hpc : (s.calls i).isEntered = false) :
    s.queue.length ≤ t.queue.length ∧
      7 * t.queue.length + (t.calls i).rank + 1 ≤ 7 * s.queue.length + (s.calls i).rank := by
  have hself (pc : CallPc) : (s.goto i pc).calls i = pc := Function.update_self _ _ _
  have hqueue (pc : CallPc) : (s.goto i pc).queue = s.queue := rfl
  cases moves_of_logStep h with
  | accept hat | refuse hat =>
    rw [hat] at hpc
    cases hpc
  | makeEntry hat | lock hat | pass hat | turnAway hat | full hat | enqueue hat
  | countPending hat | countTotal hat =>
    simp only [hat, hself, hqueue, CallPc.rank, List.length_append, List.length_singleton]
    omega

/-- After the stop a call that comes to the first check is refused. -/
theorem logStep_entered (h : S.logStep i clock threadId s = some t)
    (hpc : (s.calls i).isEntered = true) (haccepting : s.accepting = false) :
    t.queue = s.queue ∧ (t.calls i).rank = 0 := by
  cases moves_of_logStep h with
  | accept hat hopen =>
    rw [haccepting] at hopen
    cases hopen
  | refuse hat =>
    rw [State.goto_calls, Function.update_self]
    exact ⟨rfl, rfl⟩
  | makeEntry hat | lock hat | pass hat | turnAway hat | full hat | enqueue hat
  | countPending hat | countTotal hat =>
    rw [hat] at hpc
    cases hpc

/-- The ranks of the threads that may still take steps, for the calls `active`. -/
def State.remaining (active : Finset ι) (s : State ι) : ℕ :=
  s.progress.rank + s.destructor.rank + ∑ i ∈ active, (s.calls i).rank

/-- Calls outside `active` are still before the first check or have returned. -/
def State.Covers (s : State ι) (active : Finset ι) : Prop := ∀ i ∉ active, (s.calls i).rank = 0

theorem rank_calls {active : Finset ι} (hi : i ∈ active)
    (hothers : ∀ j, j ≠ i → t.calls j = s.calls j) :
    ∑ j ∈ active, (t.calls j).rank + (s.calls i).rank =
      ∑ j ∈ active, (s.calls j).rank + (t.calls i).rank := by
  have hrest : ∑ j ∈ active.erase i, (t.calls j).rank = ∑ j ∈ active.erase i, (s.calls j).rank := by
    apply Finset.sum_congr rfl
    intro j hj
    rw [hothers j (Finset.ne_of_mem_erase hj)]
  have hbefore := Finset.add_sum_erase active (fun j => (s.calls j).rank) hi
  have hafter := Finset.add_sum_erase active (fun j => (t.calls j).rank) hi
  omega

theorem step_remaining {active : Finset ι} {a : Action ι} (hreachable : S.machine.Reachable s)
    (hstop : s.stopRequested = true) (hcovers : s.Covers active)
    (h : S.machine.step s a = some t) :
    (t.stopRequested = true ∧ t.Covers active) ∧
      t.remaining active + (if urgent s a then 1 else 0) ≤ s.remaining active := by
  have hclosing := closing hreachable
  unfold State.remaining
  cases a with
  | worker clock threadId =>
    obtain ⟨hcalls, -, -, -, hstopped, hdestructor, -⟩ := workerStep_frame h
    have hturn := workerStep_turn h
    rw [hstop] at hturn
    have hlower := hturn.rank_lt hclosing.progress
    unfold State.Covers
    rw [hcalls, hdestructor, hstopped]
    refine ⟨⟨hstop, hcovers⟩, ?_⟩
    simp only [urgent, if_true]
    omega
  | log i clock threadId =>
    obtain ⟨hworker, hpending, hwrites, hstopped, hdestructor, hothers⟩ := logStep_frame h
    have hprogress : t.progress.rank + 7 * s.queue.length = s.progress.rank + 7 * t.queue.length := by
      unfold State.progress Progress.rank
      rw [hworker, hpending]
      dsimp only
      omega
    rw [hdestructor, hstopped]
    cases hentered : (s.calls i).isEntered with
    | true =>
      obtain ⟨hqueue, hzero⟩ := logStep_entered h hentered (hclosing.stopped hstop)
      have hranks : ∀ j, (t.calls j).rank = (s.calls j).rank := by
        intro j
        by_cases hj : j = i
        · rw [hj, hzero]
          cases hpc : s.calls i
          case entered => rfl
          all_goals
            rw [hpc] at hentered
            cases hentered
        · rw [hothers j hj]
      rw [hqueue] at hprogress
      refine ⟨⟨hstop, fun j hj => (hranks j).trans (hcovers j hj)⟩, ?_⟩
      simp only [urgent, hentered, Bool.not_true, Bool.false_eq_true, if_false, hranks]
      omega
    | false =>
      obtain ⟨hgrows, hlower⟩ := logStep_rank h hentered
      have hactive : i ∈ active := by
        by_contra hout
        have hzero := hcovers i hout
        omega
      have hsum := rank_calls hactive hothers
      have hcovers' : t.Covers active := by
        intro j hj
        rw [hothers j fun heq => hj (heq ▸ hactive)]
        exact hcovers j hj
      refine ⟨⟨hstop, hcovers'⟩, ?_⟩
      simp only [urgent, hentered, Bool.not_false, if_true]
      omega
  | destroy =>
    obtain ⟨hlower, hkeeps⟩ := destroyStep_rank h
    have hframe := destroyStep_frame h
    have hcalls : t.calls = s.calls := by rw [hframe]
    have hprogress : t.progress = s.progress := by rw [hframe]; rfl
    unfold State.Covers
    rw [hcalls, hprogress]
    refine ⟨⟨hkeeps hstop, hcovers⟩, ?_⟩
    simp only [urgent, if_true]
    omega

/-- Only finitely many calls have come past the first check. -/
theorem exists_covers (h : S.machine.Reachable s) : ∃ active, s.Covers active := by
  refine h.invariant (I := fun s => ∃ active, s.Covers active) ⟨∅, fun _ _ => rfl⟩ ?_
  rintro s a t ⟨active, hs⟩ - hstep
  cases a with
  | worker clock threadId =>
    refine ⟨active, ?_⟩
    unfold State.Covers
    rw [(workerStep_frame hstep).1]
    exact hs
  | log i clock threadId =>
    refine ⟨insert i active, fun j hj => ?_⟩
    rw [Finset.mem_insert, not_or] at hj
    rw [(logStep_frame hstep).2.2.2.2.2 j hj.1]
    exact hs j hj.2
  | destroy =>
    refine ⟨active, ?_⟩
    rw [destroyStep_frame hstep]
    exact hs

/-- After the stop the worker, the destructor and the calls past the first check take a bounded
number of steps. -/
theorem ends (h : S.machine.Reachable s) (hstop : s.stopRequested = true) :
    ∃ bound, ∀ actions t, S.machine.exec s actions = some t →
      S.machine.urgentSteps urgent s actions ≤ bound := by
  obtain ⟨active, hcovers⟩ := exists_covers h
  have hlowers (u : State ι) (a : Action ι) (v : State ι)
      (hu : S.machine.Reachable u ∧ u.stopRequested = true ∧ u.Covers active)
      (_ : Machine.anyStep u a) (hstep : S.machine.step u a = some v) :
      (S.machine.Reachable v ∧ v.stopRequested = true ∧ v.Covers active) ∧
        v.remaining active + (if urgent u a then 1 else 0) ≤ u.remaining active := by
    obtain ⟨hreachable, hstopped, hcovered⟩ := hu
    obtain ⟨hkeeps, hlower⟩ := step_remaining hreachable hstopped hcovered hstep
    exact ⟨⟨hreachable.tail a trivial hstep, hkeeps⟩, hlower⟩
  refine ⟨s.remaining active, fun actions t hrun => ?_⟩
  have hcount :=
    Machine.urgentSteps_le_rank hlowers (fun _ _ _ => trivial) ⟨h, hstop, hcovers⟩ hrun
  omega

end

/-- Past the check under the lock. -/
def CallPc.Accepted : CallPc → Prop
  | .sizeTest _ | .countPending | .countTotal | .queued _ | .dropped => True
  | _ => False

/-- What holds of the entries, the lines and the counts at any moment and once the destructor has
returned, and how the threads get there. -/
structure State.Lossless [DecidableEq ι] (S : Setup ι) (s : State ι) : Prop where
  order : s.written ++ s.pending ++ s.queue = s.enqueued
  made : ∀ call ∈ s.enqueued, S.Made call
  accounted : ∀ i, (s.calls i).Accepted → ¬ (s.calls i).Admitted →
    (s.enqueued.map Prod.fst).count i + (s.discarded.map Prod.fst).count i = 1
  shown : ∀ w ∈ s.writes, Shows S.localTime w.record (formatEntry S.localTime w.record)
  worded : ∀ w ∈ s.writes, w.Worded
  files : ∀ path, s.files path = S.files path ++ S.content s.writes path
  counted : s.droppedTotal = s.discarded.length % 2 ^ 64
  full : ∀ call ∈ s.discarded, S.queueCapacity ≤ call.2
  drained : s.destructor = .returned → s.queue = [] ∧ s.written = s.enqueued
  announced : s.destructor = .returned → s.discarded.length < 2 ^ 64 →
    s.announced = s.droppedTotal
  once : s.destructor = .returned → ∀ i, (s.calls i).Accepted →
    (s.written.map Prod.fst).count i + (s.discarded.map Prod.fst).count i = 1
  goesOn : s.worker ≠ .returned → ∀ clock threadId,
    (∃ t, S.machine.step s (.worker clock threadId) = some t) ∨
      ∃ i t, s.holder = some (.call i) ∧ S.machine.step s (.log i clock threadId) = some t
  flushed : ∀ actions t, S.machine.exec s actions = some t →
    s.pending.length + s.queue.length + 6 ≤
      S.machine.urgentSteps (fun _ a => a.isWorker) s actions → s.enqueued <+: t.written
  closes : s.destructor ≠ .returned → s.worker ≠ .returned ∨ ∃ t, S.machine.step s .destroy = some t
  ends : s.stopRequested = true → ∃ bound, ∀ actions t, S.machine.exec s actions = some t →
    S.machine.urgentSteps urgent s actions ≤ bound

theorem mem_enqueued_calls (hs : s.Recorded S) (i : ι) :
    i ∈ s.enqueued.map Prod.fst ↔ ∃ entry, s.calls i = .queued entry := by
  simp [hs.mem_enqueued]

/-- A call past the check that is not inside any more was enqueued or discarded, once. -/
theorem counted_once [DecidableEq ι] (hs : s.Recorded S) (haccepted : (s.calls i).Accepted)
    (hout : ¬ (s.calls i).Admitted) :
    (s.enqueued.map Prod.fst).count i + (s.discarded.map Prod.fst).count i = 1 := by
  have henqueued := mem_enqueued_calls hs i
  have hdiscarded := hs.mem_discarded i
  rw [hs.enqueued_nodup.count, hs.discarded_nodup.count]
  cases hpc : s.calls i
  case queued entry =>
    rw [if_pos (henqueued.mpr ⟨entry, hpc⟩), if_neg fun hmem => by simp_all]
  case dropped =>
    rw [if_neg fun hmem => by simp_all, if_pos (hdiscarded.mpr hpc)]
  case sizeTest | countPending | countTotal =>
    rw [hpc] at hout
    exact (hout trivial).elim
  all_goals
    rw [hpc] at haccepted
    exact haccepted.elim

/-- Nothing but the worker keeps the destructor waiting. -/
theorem destroyStep_or_waits (h : s.destructor ≠ .returned) :
    s.worker ≠ .returned ∨ ∃ t, destroyStep s = some t := by
  unfold destroyStep
  cases hpc : s.destructor
  case returned => exact absurd hpc h
  case join =>
    cases s.worker
    case returned => exact .inr ⟨_, rfl⟩
    all_goals exact .inl (by simp)
  all_goals exact .inr ⟨_, rfl⟩

theorem logger_lossless [DecidableEq ι] (h : S.machine.Reachable s) : s.Lossless S := by
  have hclosing := closing h
  have hrecorded := recorded h
  obtain ⟨horder, hnotices, hfiles⟩ := AsyncFileLogger.accounted h
  have hover (hdone : s.destructor = .returned) : s.worker = .returned :=
    hclosing.joined (.inr hdone)
  have hdrained (hdone : s.destructor = .returned) : s.queue = [] ∧ s.written = s.enqueued := by
    have hworker := hover hdone
    have hqueue := (hclosing.ended (by rw [hworker]; trivial)).2.1
    have hpending := hclosing.idle (by rw [hworker]; exact id)
    rw [hqueue, hpending, List.append_nil, List.append_nil] at horder
    exact ⟨hqueue, horder⟩
  constructor
  case order => exact horder
  case made =>
    intro call hmem
    have hqueued := (hrecorded.mem_enqueued call.1 call.2).mp hmem
    exact hrecorded.made call.1 call.2 (by rw [hqueued]; rfl)
  case accounted => exact fun i haccepted hout => counted_once hrecorded haccepted hout
  case shown => exact fun w _ => shows_formatEntry S.localTime w.record
  case worded => exact AsyncFileLogger.worded h
  case files => exact hfiles
  case counted => exact hrecorded.total
  case full => exact hrecorded.full
  case drained => exact hdrained
  case announced =>
    intro hdone hroom
    have hworker := hover hdone
    have hout := (hclosing.ended (by rw [hworker]; trivial)).2.2
    have hpending := hclosing.taken (by rw [hworker]; trivial)
    have howed : s.owed = 0 := by
      unfold State.owed
      split
      · next i _ =>
        cases hpc : s.calls i
        case countTotal => exact (hout i (by rw [hpc]; trivial)).elim
        all_goals rfl
      · rfl
    rw [hworker, hpending, howed] at hnotices
    rw [hrecorded.total, Nat.mod_eq_of_lt hroom]
    exact hnotices hroom
  case once =>
    intro hdone i haccepted
    have hout := (hclosing.ended (by rw [hover hdone]; trivial)).2.2 i
    rw [(hdrained hdone).2]
    exact counted_once hrecorded haccepted hout
  case goesOn => exact fun hworker clock threadId => goes_on (guarded h) hworker clock threadId
  case flushed => exact fun actions t hrun hturns => AsyncFileLogger.flushed h hrun hturns
  case closes => exact fun hdone => destroyStep_or_waits hdone
  case ends => exact fun hstop => AsyncFileLogger.ends h hstop

/-- A logger with room for one entry, and two calls. -/
def smallLogger : Setup Bool where
  directory := bytes "logs"
  baseName := bytes "LogGenerator"
  queueCapacity := 1
  baseName_ne_nil := by decide
  capacity_pos := by decide
  localTime _ := { year := 70, mday := 1, wday := 4 }
  openedAt := 0
  files _ := []
  level _ := .error
  message _ := bytes "lost\nconnection"

/-- The first call is written, the second is dropped, and the destructor returns. -/
def smallRun : List (Action Bool) :=
  List.replicate 5 (.log true 1000000 7) ++ List.replicate 7 (.log false 2000000 8) ++
    List.replicate 2 .destroy ++ List.replicate 11 (.worker 3000000 9) ++ List.replicate 2 .destroy

def smallText : Bytes :=
  bytes "[1970-01-01 00:00:00.001] [ERROR] [T7] lost\\nconnection\n" ++
    bytes "[1970-01-01 00:00:00.003] [WARN] [T9] Logger queue discarded 1 entries\n"

theorem logger_lossless_smallLogger : ∃ s, smallLogger.machine.exec smallLogger.start smallRun =
    some s ∧ s.destructor = .returned ∧ s.written.map Prod.fst = [true] ∧ s.announced = 1 ∧
    s.files (bytes "logs/LogGenerator_19700101.log") = smallText ∧ s.Lossless smallLogger := by
  have hrun : ∃ s, smallLogger.machine.exec smallLogger.start smallRun = some s ∧
      s.destructor = .returned ∧ s.written.map Prod.fst = [true] ∧ s.announced = 1 ∧
      s.files (bytes "logs/LogGenerator_19700101.log") = smallText := ⟨_, rfl, rfl, rfl, rfl, rfl⟩
  obtain ⟨s, hs, hdone, hwritten, hannounced, hfile⟩ := hrun
  exact ⟨s, hs, hdone, hwritten, hannounced, hfile,
    logger_lossless (Machine.reachable_of_exec hs)⟩

end AsyncFileLogger
end Infrastructure
end LogGenerator
