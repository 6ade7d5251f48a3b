import LogGenerator.Application.RunOutcome
import LogGenerator.Presentation.RunGenerator

/-!
# The command line waits for its run

The loop of `run_generator` beside the run it has started: a snapshot reads the state word
first and the status message later, and only this loop calls `request_stop`. It leaves
when the run is over, and then at once.
-/

namespace LogGenerator
namespace Presentation

open Application Domain

variable {Handle World Event : Type}

/-- Where the loop is: at the two reads of a snapshot, at what follows from them, in a
`request_stop` call, or on its way to `stop` with the result of the command. -/
inductive WaitPc where
  | readState
  | readMessage (state : GeneratorState)
  | turn (state : GeneratorState) (statusMessage : Bytes)
  | requestStop
  | stop (result : ℕ)
  deriving DecidableEq

structure WaitLoop (S : Setup Handle World Event) where
  run : S.State
  monitor : Monitor
  pc : WaitPc := .readState

/-- A step of the loop, for what it reads of the signal flag and the clock, or of a thread of the
run. -/
inductive WaitAction (Event : Type) (workerCount : ℕ) where
  | main (signalled : Bool) (now : ℤ)
  | supervisor (fault : Option Failure)
  | worker (i : Fin workerCount) (event : Event) (fault : Option Failure)

namespace WaitLoop

variable (options : CliOptions) {S : Setup Handle World Event}

def mainStep (l : WaitLoop S) (signalled : Bool) (now : ℤ) : Option (WaitLoop S) :=
  match l.pc with
  | .readState => some { l with pc := .readMessage l.run.shared.state }
  | .readMessage state => some { l with pc := .turn state l.run.shared.statusMessage }
  | .turn state statusMessage =>
    match Presentation.turn options state statusMessage signalled now l.monitor with
    | none => none
    | some (.leave result) => some { l with pc := .stop result }
    | some (.again monitor requestedStop _) =>
      some { l with
        monitor := monitor
        pc := if requestedStop then .requestStop else .readState }
  | .requestStop =>
    (S.machine.step l.run .requestStop).map fun run =>
      { l with
        run := run
        pc := if run.shared.client = .idle then .readState else .requestStop }
  | .stop _ => none

def step (l : WaitLoop S) : WaitAction Event S.workerCount → Option (WaitLoop S)
  | .main signalled now => l.mainStep options signalled now
  | .supervisor fault =>
    (S.machine.step l.run (.supervisor fault)).map fun run => { l with run := run }
  | .worker i event fault =>
    (S.machine.step l.run (.worker i event fault)).map fun run => { l with run := run }

variable (S) in
def machine (started nextStatus : ℤ) : Machine (WaitLoop S) (WaitAction Event S.workerCount) where
  initial :=
    { run := S.initial
      monitor :=
        { started := started
          nextStatus := nextStatus } }
  step := step options

/-- The loop stores `Stopping` after the supervisor has left the state word. -/
def LateRequest (l : WaitLoop S) : WaitAction Event S.workerCount → Prop
  | .main _ _ => l.pc = .requestStop ∧ S.LateStore l.run .requestStop
  | .supervisor _ | .worker _ _ _ => False

variable {options} {l l' : WaitLoop S} {started nextStatus : ℤ}

/-- What a turn that leaves with success has read. -/
theorem turn_cases {state : GeneratorState} {statusMessage : Bytes} {signalled : Bool} {now : ℤ}
    {m : Monitor} {next : Turn}
    (h : Presentation.turn options state statusMessage signalled now m = some next) :
    (∃ result, next = .leave result ∧ (result = 0 → state = .stopped)) ∨
    ∃ m' requested printed, next = .again m' requested printed ∧
      m'.stopRequested = (m.stopRequested || requested) := by
  unfold Presentation.turn at h
  split_ifs at h with hfailed hasked hmessage
  · cases h
    exact .inl ⟨1, rfl, by simp⟩
  · cases h
    exact .inl ⟨0, rfl, fun _ => hasked.1⟩
  · cases h
    exact .inl ⟨0, rfl, fun _ => hmessage.2⟩
  · simp only [Option.bind_eq_bind, Option.bind_eq_some_iff] at h
    obtain ⟨stop, -, nextStatus, -, hnext⟩ := h
    cases hnext
    exact .inr ⟨_, _, _, rfl, rfl⟩

/-- The loop has read `Stopped`. -/
def ReadStopped : WaitPc → Prop
  | .readMessage state | .turn state _ => state = .stopped
  | .stop result => result = 0
  | _ => False

/-- The invariant of a loop without late requests. -/
structure Watching (l : WaitLoop S) : Prop where
  run : S.machine.Steps (fun s a => ¬ S.LateStore s a) S.initial l.run
  unasked : l.monitor.stopRequested = false →
    S.machine.Steps (fun _ a => a ≠ .requestStop) S.initial l.run
  asking : l.pc = .requestStop → l.monitor.stopRequested = true
  read : ReadStopped l.pc → l.run.supervisor = .returned

theorem watching_initial : Watching (machine options S started nextStatus).initial where
  run := .refl _
  unasked _ := .refl _
  asking h := by cases h
  read h := h.elim

/-- The supervisor does nothing after it has returned. -/
theorem returned_step {s t : S.State} {a : Action Event S.workerCount}
    (h : S.machine.step s a = some t) (hreturned : s.supervisor = .returned) :
    t.supervisor = .returned := by
  cases a with
  | requestStop =>
    cases h
    exact hreturned
  | supervisor fault => simp [Setup.machine, Setup.step, Setup.supervisorStep, hreturned] at h
  | worker i event fault =>
    obtain ⟨r, -, rfl⟩ := Option.map_eq_some_iff.mp h
    exact hreturned

theorem Watching.thread (hl : Watching l) {a : Action Event S.workerCount} {run : S.State}
    (ha : a ≠ .requestStop) (h : S.machine.step l.run a = some run) :
    Watching { l with run := run } := by
  have hnotLate : ¬ S.LateStore l.run a := by
    rintro ⟨-, -, hrequest⟩
    cases a
    case requestStop => exact ha rfl
    all_goals exact hrequest
  refine ⟨hl.run.tail a hnotLate h, fun hasked => (hl.unasked hasked).tail a ha h, hl.asking, ?_⟩
  exact fun hread => returned_step h (hl.read hread)

theorem Watching.mainStep {signalled : Bool} {now : ℤ} (hl : Watching l)
    (hok : ¬ LateRequest l (.main signalled now))
    (h : l.mainStep options signalled now = some l') : Watching l' := by
  obtain ⟨hrun, hunasked, hasking, hread⟩ := hl
  cases hpc : l.pc
  all_goals simp only [WaitLoop.mainStep, hpc] at h
  all_goals simp only [hpc, ReadStopped] at hread hasking
  case readState =>
    cases h
    exact ⟨hrun, hunasked, by simp, Setup.returned_of_stopped hrun.any⟩
  case readMessage state =>
    cases h
    exact ⟨hrun, hunasked, by simp, hread⟩
  case turn state statusMessage =>
    cases hturn : Presentation.turn options state statusMessage signalled now l.monitor with
    | none =>
      rw [hturn] at h
      cases h
    | some next =>
      rw [hturn] at h
      rcases turn_cases hturn with ⟨result, rfl, hstopped⟩ | ⟨m, requested, printed, rfl, hm⟩
      · cases h
        exact ⟨hrun, hunasked, by simp, fun hzero => hread (hstopped hzero)⟩
      · cases h
        refine ⟨hrun, fun hfalse => ?_, fun hrequest => ?_, ?_⟩
        · apply hunasked
          simp_all
        · cases requested
          · simp at hrequest
          · simp [hm]
        · dsimp only
          split_ifs
          all_goals exact False.elim
  case requestStop =>
    obtain ⟨run, hstep, rfl⟩ := Option.map_eq_some_iff.mp h
    have hnotLate : ¬ S.LateStore l.run .requestStop := fun hlate => hok ⟨hpc, hlate⟩
    have hasked := hasking trivial
    refine ⟨hrun.tail _ hnotLate hstep, fun hfalse => ?_, fun _ => hasked, ?_⟩
    · rw [show l.monitor.stopRequested = false from hfalse] at hasked
      cases hasked
    · dsimp only
      split_ifs
      all_goals exact False.elim
  case stop => cases h

theorem watching_of_steps
    (h : (machine options S started nextStatus).Steps (fun l a => ¬ LateRequest l a)
      (machine options S started nextStatus).initial l) : Watching l := by
  refine h.invariant watching_initial ?_
  intro l a l' hl hok hstep
  cases a with
  | main signalled now => exact hl.mainStep hok hstep
  | supervisor fault =>
    obtain ⟨run, hrun, rfl⟩ := Option.map_eq_some_iff.mp hstep
    exact hl.thread (by simp) hrun
  | worker i event fault =>
    obtain ⟨run, hrun, rfl⟩ := Option.map_eq_some_iff.mp hstep
    exact hl.thread (by simp) hrun

variable (options) in
/-- What a turn makes of a run that is over. -/
theorem turn_of_over {state : GeneratorState} {statusMessage : Bytes} (signalled : Bool) (now : ℤ)
    {m : Monitor} (hterminal : Terminal state)
    (hshows : m.stopRequested = true ∨ state = .failed ∨ statusMessage ≠ []) :
    Presentation.turn options state statusMessage signalled now m =
      some (.leave (if state = .failed then 1 else 0)) := by
  unfold Presentation.turn
  rcases hterminal with rfl | rfl
  · rw [if_neg (by simp)]
    by_cases hasked : m.stopRequested = true
    · rw [if_pos ⟨rfl, hasked⟩]
      rfl
    · have hmessage : statusMessage ≠ [] := by
        rcases hshows with h | h | h
        · exact absurd h hasked
        · cases h
        · exact h
      rw [if_neg (fun h => hasked h.2), if_pos ⟨hmessage, rfl⟩]
      rfl
  · rw [if_pos rfl]
    rfl

variable (options S started nextStatus) in
/-- As long as no request comes too late: the loop leaves with success only when the supervisor has
returned; and once it has, the next turn leaves, with a failure if that is the state. So the
command neither gives its run up nor waits for one that is over, whether the run was stopped,
failed or came to a limit of its own. -/
theorem waitLoop_ends (l : WaitLoop S)
    (h : (machine options S started nextStatus).Steps (fun l a => ¬ LateRequest l a)
      (machine options S started nextStatus).initial l) :
    (l.pc = .stop 0 → l.run.supervisor = .returned) ∧
    (l.run.supervisor = .returned → l.pc = .readState → ∀ signalled now,
      (machine options S started nextStatus).exec l
          [.main signalled now, .main signalled now, .main signalled now] =
        some { l with pc := .stop (if l.run.shared.state = .failed then 1 else 0) }) := by
  have hl := watching_of_steps h
  constructor
  · intro hpc
    apply hl.read
    rw [hpc]
    exact rfl
  · intro hreturned hpc signalled now
    have hterminal : Terminal l.run.shared.state :=
      Setup.endsTerminal_of_steps hl.run (.inr hreturned)
    have hshows : l.monitor.stopRequested = true ∨ l.run.shared.state = .failed ∨
        l.run.shared.statusMessage ≠ [] := by
      cases hasked : l.monitor.stopRequested
      · have hnoticed := (Setup.noticed_of_steps (hl.unasked hasked)).supervisor
        rw [hreturned] at hnoticed
        exact .inr hnoticed
      · exact .inl rfl
    have hleave := turn_of_over options signalled now hterminal hshows
    simp only [Machine.exec, machine, step, WaitLoop.mainStep, hpc, hleave]

/-- The supervisor fails before it starts a worker. -/
def failedStart : List (WaitAction Unit 1) :=
  [.supervisor (some .unknown), .supervisor none, .supervisor none, .supervisor none]

theorem waitLoop_ends_failedStart :
    ∃ l, (machine {} Setup.solitary 0 0).exec (machine {} Setup.solitary 0 0).initial failedStart =
        some l ∧
      (machine {} Setup.solitary 0 0).exec l [.main false 1, .main false 1, .main false 1] =
        some { l with pc := .stop 1 } := by
  obtain ⟨l, hrun, hreturned, hpc, hfailed⟩ :
      ∃ l, (machine {} Setup.solitary 0 0).exec (machine {} Setup.solitary 0 0).initial failedStart =
        some l ∧ l.run.supervisor = .returned ∧ l.pc = .readState ∧
        l.run.shared.state = .failed := ⟨_, rfl, rfl, rfl, rfl⟩
  have hnotLate : ∀ (l : WaitLoop Setup.solitary), ∀ a ∈ failedStart, ¬ LateRequest l a := by
    intro l a ha
    simp only [failedStart, List.mem_cons, List.not_mem_nil, or_false] at ha
    rcases ha with rfl | rfl | rfl | rfl
    all_goals exact id
  have hends := waitLoop_ends {} Setup.solitary 0 0 l (Machine.Steps.of_exec hnotLate hrun)
  have hleaves := hends.2 hreturned hpc false 1
  rw [if_pos hfailed] at hleaves
  exact ⟨l, hrun, hleaves⟩

end WaitLoop
end Presentation
end LogGenerator
