import LogGenerator.Application.Transport
import LogGenerator.Foundation.Calendar
import LogGenerator.Foundation.FreshName
import LogGenerator.Foundation.FromChars

/-!
# The FILE transport

`send` cuts its payload after every line feed and writes each piece to a file of
its own, under the next name that is free. The output directory is the list of
its files; what the operating system answers is data of the call.
-/

namespace LogGenerator
namespace Infrastructure

open Ascii Domain Application

/-- The files of the output directory, names with contents; no name occurs twice. -/
structure Directory where
  files : List (Bytes × Bytes)
  nodup : (files.map Prod.fst).Nodup

namespace Directory

def names (d : Directory) : List Bytes := d.files.map Prod.fst

def create (d : Directory) (name content : Bytes) (h : name ∉ d.names) : Directory where
  files := d.files ++ [(name, content)]
  nodup := by
    rw [List.map_append, List.nodup_append]
    refine ⟨d.nodup, List.nodup_singleton _, ?_⟩
    intro a ha b hb hab
    rw [hab, List.mem_singleton.mp hb] at ha
    exact h ha

def remove (d : Directory) (name : Bytes) : Directory where
  files := d.files.filter fun f => f.1 ≠ name
  nodup := d.nodup.sublist (List.filter_sublist.map Prod.fst)

theorem remove_create (d : Directory) (name content : Bytes) (h : name ∉ d.names) :
    (d.create name content h).remove name = d := by
  have hkeep : d.files.filter (fun f => f.1 ≠ name) = d.files := by
    rw [List.filter_eq_self]
    intro f hf
    have hne : f.1 ≠ name := by
      rintro rfl
      exact h (List.mem_map_of_mem hf)
    simpa using hne
  cases d
  simp only [remove, create, List.filter_append, Directory.mk.injEq]
  simp only at hkeep
  rw [hkeep]
  simp

end Directory

inductive WriteResult where
  | wrote (count : ℕ)
  | failed (error : Bytes)

/-- What the operating system answers while one file is created: `open`, each `write`
(those not listed write all that remains), `close` and the removal after a failure. -/
structure FileIo where
  openError : Option Bytes := none
  writes : List WriteResult := []
  closeError : Option Bytes := none
  removed : Bool := true

def systemError (what error : Bytes) : Failure := .exception (what ++ bytes ": " ++ error)

/-- What has been written, and the exception if one was thrown. -/
def writeAll : List WriteResult → Bytes → Bytes × Option Failure
  | _, [] => ([], none)
  | [], content => (content, none)
  | .failed error :: _, _ => ([], some (systemError (bytes "Generated log write failed") error))
  | .wrote 0 :: _, _ =>
    ([], some (.exception (bytes "Generated log write made no progress")))
  | .wrote (count + 1) :: writes, content =>
    let rest := writeAll writes (content.drop (count + 1))
    (content.take (count + 1) ++ rest.1, rest.2)

inductive WriteOutcome where
  | collision
  | written (d : Directory)
  | threw (failure : Failure) (d : Directory)

def writeLog (d : Directory) (path log : Bytes) (io : FileIo) : WriteOutcome :=
  match io.openError with
  | some error => .threw (systemError (bytes "Generated log file creation failed") error) d
  | none =>
    if h : path ∈ d.names then .collision
    else
      let file := d.create path (writeAll io.writes log).1 h
      let cleaned := if io.removed then file.remove path else file
      match (writeAll io.writes log).2, io.closeError with
      | some failure, _ => .threw failure cleaned
      | none, some error => .threw (systemError (bytes "Generated log close failed") error) cleaned
      | none, none => .written file

def fileSequence (index : ℕ) : Bytes :=
  let sequence := decimal (index + 1)
  bytes "_" ++ List.replicate (4 - sequence.length) (digit 0) ++ sequence

def filePath (timestamp : Bytes) (index : ℕ) : Bytes :=
  timestamp ++ (if 0 < index then fileSequence index else []) ++ bytes ".log"

theorem fileSequence_injective : Function.Injective fileSequence := by
  intro i j h
  simp only [fileSequence, List.append_assoc, List.append_cancel_left_eq] at h
  have hvalue := congrArg decimalValue h
  rw [decimalValue_zeros, decimalValue_zeros, decimalValue_decimal, decimalValue_decimal] at hvalue
  omega

theorem fileSequence_ne_nil (index : ℕ) : fileSequence index ≠ [] := by
  intro h
  exact decimal_ne_nil _ (List.append_eq_nil_iff.mp h).2

theorem filePath_injective (timestamp : Bytes) : Function.Injective (filePath timestamp) := by
  intro i j h
  simp only [filePath, List.append_assoc, List.append_cancel_left_eq,
    List.append_cancel_right_eq] at h
  by_cases hi : 0 < i
  · by_cases hj : 0 < j
    · simp only [hi, hj, ↓reduceIte] at h
      exact fileSequence_injective h
    · simp only [hi, hj, ↓reduceIte] at h
      exact absurd h (fileSequence_ne_nil i)
  · by_cases hj : 0 < j
    · simp only [hi, hj, ↓reduceIte] at h
      exact absurd h.symm (fileSequence_ne_nil j)
    · omega

theorem mem_names_of_collision {d : Directory} {path log : Bytes} {io : FileIo}
    (h : writeLog d path log io = .collision) : path ∈ d.names := by
  by_contra hfree
  simp only [writeLog, hfree, ↓reduceDIte] at h
  split at h
  · cases h
  · split at h
    all_goals cases h

/-- The loop of `send` that tries the next name until one is free: the outcome, the new
`next_file_index_` and the directory. -/
def writeNext (timestamp : Bytes) (d : Directory) (log : Bytes) (io : ℕ → FileIo) (index : ℕ) :
    Except Failure Unit × ℕ × Directory :=
  match hw : writeLog d (filePath timestamp index) log (io index) with
  | .collision => writeNext timestamp d log io (index + 1)
  | .written d' => (.ok (), index + 1, d')
  | .threw failure d' => (.error failure, index + 1, d')
termination_by (takenFrom (filePath timestamp) d.names index).ncard
decreasing_by
  have htaken := ncard_takenFrom_succ (filePath_injective timestamp) (mem_names_of_collision hw)
  omega

/-- The pieces of a payload: each ends with its line feed, the last one perhaps without. -/
def logs : Bytes → List Bytes
  | [] => []
  | b :: rest =>
    if b = lf then [b] :: logs rest
    else
      match logs rest with
      | [] => [[b]]
      | log :: more => (b :: log) :: more

/-- `std::uint64_t` subtraction. -/
def wrapSub (a b : ℕ) : ℕ := if b ≤ a then a - b else a + 2 ^ 64 - b

/-- The times are in nanoseconds of the steady clock. -/
structure FileTransport where
  timestamp : Bytes := []
  nextFileIndex : ℕ := 0
  fileCount : ℕ := 0
  totalSize : ℕ := 0
  maxTotalBytes : ℕ := 0
  maxFileCount : ℕ := 0
  maxDuration : ℤ := 0
  startedAt : ℤ := 0

/-- What `connect` reads of its surroundings; `systemNow` is in nanoseconds. -/
structure ConnectIo where
  directoryError : Option Bytes := none
  systemNow : ℤ
  localTime : ℤ → Tm
  steadyNow : ℤ

/-- What `send` reads of its surroundings: the clock, and the answers for the file of
each index. -/
structure SendIo where
  now : ℤ
  file : ℕ → FileIo

namespace FileTransport

def startTimestamp (io : ConnectIo) : Bytes :=
  let value := io.localTime (io.systemNow.tdiv 1000000000)
  let milliseconds := (io.systemNow.tdiv 1000000).tmod 1000
  zeroPadded 4 (value.year + 1900) ++ zeroPadded 2 (value.mon + 1) ++ zeroPadded 2 value.mday ++
    bytes "_" ++ zeroPadded 2 value.hour ++ zeroPadded 2 value.min ++ zeroPadded 2 value.sec ++
    bytes "_" ++ zeroPadded 3 (if milliseconds < 0 then milliseconds + 1000 else milliseconds)

def connect (endpoint : EndpointConfig) (io : ConnectIo) : Except Failure FileTransport :=
  match io.directoryError with
  | some what => .error (.exception what)
  | none =>
    .ok
      { timestamp := startTimestamp io
        maxTotalBytes := endpoint.fileMaxTotalBytes
        maxFileCount := endpoint.fileMaxCount
        maxDuration := endpoint.fileMaxDuration
        startedAt := io.steadyNow }

def logCount (payload : Bytes) : ℕ :=
  payload.count lf + if payload.getLast? = some lf then 0 else 1

/-- The three checks of `send`, in their order. -/
def limitReached (t : FileTransport) (payload : Bytes) (now : ℤ) : Option SendResult :=
  if 0 < t.maxDuration ∧ t.maxDuration * 1000000 ≤ now - t.startedAt then
    some .durationLimitReached
  else if 0 < t.maxTotalBytes ∧ (t.maxTotalBytes ≤ t.totalSize ∨
      wrapSub t.maxTotalBytes t.totalSize < payload.length) then
    some .totalBytesLimitReached
  else if 0 < t.maxFileCount ∧ (t.maxFileCount ≤ t.fileCount ∨
      wrapSub t.maxFileCount t.fileCount < logCount payload) then
    some .fileCountLimitReached
  else none

/-- The loop of `send` over the pieces. -/
def writeLogs (io : ℕ → FileIo) :
    List Bytes → FileTransport → Directory → Except Failure Unit × FileTransport × Directory
  | [], t, d => (.ok (), t, d)
  | log :: rest, t, d =>
    match writeNext t.timestamp d log io t.nextFileIndex with
    | (.ok _, index, d') =>
      writeLogs io rest
        { t with
          nextFileIndex := index
          fileCount := t.fileCount + 1
          totalSize := t.totalSize + log.length } d'
    | (.error failure, index, d') => (.error failure, { t with nextFileIndex := index }, d')

def send (t : FileTransport) (d : Directory) (payload : Bytes) (io : SendIo) :
    Except Failure SendResult × FileTransport × Directory :=
  if t.timestamp = [] then (.error (.exception (bytes "FILE transport is not connected")), t, d)
  else if payload = [] then (.ok .sent, t, d)
  else
    match t.limitReached payload io.now with
    | some limit => (.ok limit, t, d)
    | none =>
      match writeLogs io.file (logs payload) t d with
      | (.ok _, t', d') => (.ok .sent, t', d')
      | (.error failure, t', d') => (.error failure, t', d')

/-- `ILogTransport::send_batch`, which the FILE transport inherits; the answers come
call by call. -/
def sendBatch (t : FileTransport) (d : Directory) :
    List Bytes → (ℕ → SendIo) → Except Failure SendResult × FileTransport × Directory
  | [], _ => (.ok .sent, t, d)
  | payload :: rest, io =>
    match t.send d payload (io 0) with
    | (.ok .sent, t', d') => sendBatch t' d' rest fun k => io (k + 1)
    | (.ok limit, t', d') => (.ok limit, t', d')
    | (.error failure, t', d') => (.error failure, t', d')

end FileTransport

/-- What the environment decides in one call of the transport. -/
structure FileEvent where
  connect : ConnectIo
  send : ℕ → SendIo

def fileTransport : Transport FileTransport Directory FileEvent where
  connect endpoint d event := (FileTransport.connect endpoint event.connect, d)
  send t d payload event := t.send d payload (event.send 0)
  sendBatch t d payloads event := t.sendBatch d payloads event.send
  isDatagram := false
  preferredBatchSize := 1

/-- Every system call for the file succeeds. -/
structure FileIo.Completes (io : FileIo) (log : Bytes) : Prop where
  opened : io.openError = none
  written : (writeAll io.writes log).2 = none
  closed : io.closeError = none

theorem writeAll_complete {writes : List WriteResult} {content : Bytes}
    (h : (writeAll writes content).2 = none) : (writeAll writes content).1 = content := by
  fun_induction writeAll writes content with
  | case1 => rfl
  | case2 => rfl
  | case3 => cases h
  | case4 => cases h
  | case5 count writes content hne rest ih =>
    have hrest : rest.1 = content.drop (count + 1) := ih h
    simp only [hrest, List.take_append_drop]

theorem writeLog_written {d d' : Directory} {path log : Bytes} {io : FileIo}
    (h : writeLog d path log io = .written d') :
    d'.files = d.files ++ [(path, log)] ∧ io.Completes log := by
  unfold writeLog at h
  split at h
  · cases h
  · rename_i hopened
    split at h
    · cases h
    · dsimp only at h
      split at h
      · cases h
      · cases h
      · rename_i hwritten hclosed
        cases h
        refine ⟨?_, hopened, hwritten, hclosed⟩
        rw [Directory.create, writeAll_complete hwritten]

/-- After an exception at most the partly written file is left. -/
theorem writeLog_threw {d d' : Directory} {path log : Bytes} {io : FileIo} {failure : Failure}
    (h : writeLog d path log io = .threw failure d') :
    ¬ io.Completes log ∧
      ∃ leftover, d'.files = d.files ++ leftover ∧ (io.removed = true → leftover = []) := by
  unfold writeLog at h
  split at h
  · rename_i error hopened
    cases h
    refine ⟨?_, [], by simp, fun _ => rfl⟩
    intro hcompletes
    rw [hcompletes.opened] at hopened
    cases hopened
  · split at h
    · cases h
    · rename_i hfree
      dsimp only at h
      have hcleaned : ∀ content, ∃ leftover,
          (if io.removed then (d.create path content hfree).remove path
            else d.create path content hfree).files = d.files ++ leftover ∧
          (io.removed = true → leftover = []) := by
        intro content
        by_cases hremoved : io.removed = true
        · exact ⟨[], by simp [hremoved, Directory.remove_create], fun _ => rfl⟩
        · exact ⟨[(path, content)], by simp [hremoved, Directory.create], fun h => absurd h hremoved⟩
      split at h
      · rename_i hwritten
        cases h
        refine ⟨?_, hcleaned _⟩
        intro hcompletes
        rw [hcompletes.written] at hwritten
        cases hwritten
      · rename_i hclosed
        cases h
        refine ⟨?_, hcleaned _⟩
        intro hcompletes
        rw [hcompletes.closed] at hclosed
        cases hclosed
      · cases h

/-- The names still taken ahead of `index`; a search tries at most one more. -/
noncomputable def ahead (timestamp : Bytes) (d : Directory) (index : ℕ) : ℕ :=
  (takenFrom (filePath timestamp) d.names index).ncard

theorem ahead_le (timestamp : Bytes) (d : Directory) (index : ℕ) :
    ahead timestamp d index ≤ d.files.length := by
  have hle := ncard_takenFrom_le (filePath_injective timestamp) d.names index
  rwa [Directory.names, List.length_map] at hle

theorem ahead_succ_le (timestamp : Bytes) (d : Directory) (index : ℕ) :
    ahead timestamp d (index + 1) ≤ ahead timestamp d index := by
  apply Set.ncard_le_ncard
  · rintro i ⟨hi, htaken⟩
    exact ⟨by omega, htaken⟩
  · exact takenFrom_finite (filePath_injective timestamp) d.names index

theorem ahead_succ_of_mem {timestamp : Bytes} {d : Directory} {index : ℕ}
    (h : filePath timestamp index ∈ d.names) :
    ahead timestamp d (index + 1) + 1 = ahead timestamp d index :=
  ncard_takenFrom_succ (filePath_injective timestamp) h

/-- Files whose names are behind `index` do not count. -/
theorem ahead_append {timestamp : Bytes} {d d' : Directory} {index : ℕ} {files : List (Bytes × Bytes)}
    (hd : d'.files = d.files ++ files)
    (hfiles : ∀ f ∈ files, ∃ i < index, f.1 = filePath timestamp i) :
    ahead timestamp d' index = ahead timestamp d index := by
  have hset : takenFrom (filePath timestamp) d'.names index =
      takenFrom (filePath timestamp) d.names index := by
    ext i
    simp only [takenFrom, Set.mem_ofPred_eq, Directory.names, hd, List.map_append, List.mem_append]
    constructor
    · rintro ⟨hi, hold | hnew⟩
      · exact ⟨hi, hold⟩
      · obtain ⟨f, hf, hname⟩ := List.mem_map.mp hnew
        obtain ⟨j, hj, hpath⟩ := hfiles f hf
        have heq : j = i := filePath_injective timestamp (hpath.symm.trans hname)
        omega
    · rintro ⟨hi, hold⟩
      exact ⟨hi, .inl hold⟩
  rw [ahead, hset, ahead]

/-- What the search for a free name has done to the directory when it ends at `last`. -/
def Ends (timestamp log : Bytes) (io : ℕ → FileIo) (last : ℕ) (d d' : Directory) :
    Except Failure Unit → Prop
  | .ok _ => d'.files = d.files ++ [(filePath timestamp last, log)] ∧ (io last).Completes log
  | .error _ => ¬ (io last).Completes log ∧ ∃ leftover, d'.files = d.files ++ leftover ∧
      ((io last).removed = true → leftover = [])

/-- The outcome of the search: every name it passed is taken, and it ends. -/
theorem writeNext_spec {timestamp log : Bytes} {d d' : Directory} {io : ℕ → FileIo}
    {index index' : ℕ} {r : Except Failure Unit}
    (h : writeNext timestamp d log io index = (r, index', d')) :
    ∃ last, index' = last + 1 ∧ index ≤ last ∧
      (∀ i, index ≤ i → i < last → filePath timestamp i ∈ d.names) ∧
      last + ahead timestamp d (last + 1) ≤ index + ahead timestamp d index ∧
      Ends timestamp log io last d d' r := by
  fun_induction writeNext timestamp d log io index with
  | case1 index hw ih =>
    obtain ⟨last, hlast, hle, htaken, hahead, hr⟩ := ih h
    have hmem := mem_names_of_collision hw
    have hstep := ahead_succ_of_mem hmem
    refine ⟨last, hlast, by omega, ?_, by omega, hr⟩
    intro i hi hlt
    by_cases heq : i = index
    · rw [heq]
      exact hmem
    · exact htaken i (by omega) hlt
  | case2 index d₁ hw =>
    cases h
    have hstep := ahead_succ_le timestamp d index
    exact ⟨index, rfl, le_rfl, fun i hi hlt => by omega, by omega, writeLog_written hw⟩
  | case3 index failure d₁ hw =>
    cases h
    have hstep := ahead_succ_le timestamp d index
    exact ⟨index, rfl, le_rfl, fun i hi hlt => by omega, by omega, writeLog_threw hw⟩

theorem flatten_logs (payload : Bytes) : (logs payload).flatten = payload := by
  fun_induction logs payload with
  | case1 => rfl
  | case2 rest ih => simp [ih]
  | case3 b rest hb hlogs ih => simpa [hlogs] using ih
  | case4 b rest hb log more hlogs ih => simpa [hlogs] using ih

/-- What cutting after every line feed means. -/
structure Pieces (payload : Bytes) (pieces : List Bytes) : Prop where
  flatten : pieces.flatten = payload
  terminated : ∀ piece ∈ pieces.dropLast, ∃ body, lf ∉ body ∧ piece = body ++ [lf]
  last : ∀ piece ∈ pieces.getLast?, piece ≠ [] ∧ lf ∉ piece.dropLast

theorem logs_eq_nil {payload : Bytes} (h : logs payload = []) : payload = [] := by
  rw [← flatten_logs payload, h]
  rfl

theorem length_logs {payload : Bytes} (h : payload ≠ []) :
    (logs payload).length = FileTransport.logCount payload := by
  fun_induction logs payload with
  | case1 => exact absurd rfl h
  | case2 rest ih =>
    by_cases hrest : rest = []
    · subst hrest
      rfl
    · obtain ⟨c, more, rfl⟩ := List.exists_cons_of_ne_nil hrest
      rw [List.length_cons, ih hrest]
      simp only [FileTransport.logCount, List.count_cons_self, List.getLast?_cons_cons]
      omega
  | case3 b rest hb hlogs ih =>
    have hrest := logs_eq_nil hlogs
    subst hrest
    simp [FileTransport.logCount, hb]
  | case4 b rest hb log more hlogs ih =>
    have hrest : rest ≠ [] := by
      rintro rfl
      cases hlogs
    have hlength := ih hrest
    obtain ⟨c, rest', rfl⟩ := List.exists_cons_of_ne_nil hrest
    rw [hlogs] at hlength
    rw [List.length_cons] at hlength ⊢
    rw [hlength]
    simp [FileTransport.logCount, hb]

theorem pieces_logs (payload : Bytes) : Pieces payload (logs payload) := by
  have hcut : (∀ piece ∈ (logs payload).dropLast, ∃ body, lf ∉ body ∧ piece = body ++ [lf]) ∧
      ∀ piece ∈ (logs payload).getLast?, piece ≠ [] ∧ lf ∉ piece.dropLast := by
    fun_induction logs payload with
    | case1 => simp
    | case2 rest ih =>
      cases hlogs : logs rest with
      | nil => simp
      | cons log more =>
        rw [hlogs] at ih
        refine ⟨?_, ih.2⟩
        intro piece hpiece
        rcases List.mem_cons.mp hpiece with rfl | hlater
        · exact ⟨[], by simp⟩
        · exact ih.1 piece hlater
    | case3 b rest hb hlogs ih => simp
    | case4 b rest hb log more hlogs ih =>
      have hbody : ∀ body, lf ∉ body → lf ∉ b :: body := by
        intro body hbody hmem
        rcases List.mem_cons.mp hmem with heq | hmem
        · exact hb heq.symm
        · exact hbody hmem
      rw [hlogs] at ih
      cases more with
      | nil =>
        refine ⟨by simp, ?_⟩
        intro piece hpiece
        obtain ⟨hne, hlast⟩ := ih.2 log rfl
        obtain rfl : b :: log = piece := by simpa using hpiece
        refine ⟨List.cons_ne_nil _ _, ?_⟩
        rw [List.dropLast_cons_of_ne_nil hne]
        exact hbody _ hlast
      | cons next more =>
        refine ⟨?_, ih.2⟩
        intro piece hpiece
        rcases List.mem_cons.mp hpiece with rfl | hlater
        · obtain ⟨body, hfree, rfl⟩ := ih.1 log List.mem_cons_self
          exact ⟨b :: body, hbody _ hfree, rfl⟩
        · exact ih.1 piece (List.mem_cons_of_mem _ hlater)
  exact ⟨flatten_logs payload, hcut.1, hcut.2⟩

/-- What a call that gets past the checks has done: `files` are complete, and `leftover`
is what a failed removal leaves. -/
structure Wrote (io : ℕ → FileIo) (t : FileTransport) (d : Directory)
    (files leftover : List (Bytes × Bytes)) (t' : FileTransport) (d' : Directory) : Prop where
  transport : t' =
    { t with
      nextFileIndex := t'.nextFileIndex
      fileCount := t'.fileCount
      totalSize := t'.totalSize }
  fileCount : t'.fileCount = t.fileCount + files.length
  totalSize : t'.totalSize = t.totalSize + (files.map Prod.snd).flatten.length
  directory : d'.files = d.files ++ files ++ leftover
  names : ∀ f ∈ files, ∃ i, t.nextFileIndex ≤ i ∧ i < t'.nextFileIndex ∧
    f.1 = filePath t.timestamp i ∧ (io i).Completes f.2

/-- How the call ends: all of `ls` is written, or a later part is not. -/
def Finished (io : ℕ → FileIo) (ls : List Bytes) (t t' : FileTransport) (d' : Directory)
    (files leftover : List (Bytes × Bytes)) : Except Failure Unit → Prop
  | .ok _ => files.map Prod.snd = ls ∧ leftover = [] ∧
      ∀ i, t.nextFileIndex ≤ i → i < t'.nextFileIndex → filePath t.timestamp i ∈ d'.names
  | .error _ => (∃ unwritten, unwritten ≠ [] ∧ files.map Prod.snd ++ unwritten = ls) ∧
      ((∀ i, (io i).removed = true) → leftover = [])

theorem writeLogs_spec {io : ℕ → FileIo} {ls : List Bytes} {t t' : FileTransport}
    {d d' : Directory} {r : Except Failure Unit}
    (h : FileTransport.writeLogs io ls t d = (r, t', d')) :
    ∃ files leftover, Wrote io t d files leftover t' d' ∧
      t.nextFileIndex ≤ t'.nextFileIndex ∧
      t'.nextFileIndex ≤ t.nextFileIndex + ahead t.timestamp d t.nextFileIndex + ls.length ∧
      Finished io ls t t' d' files leftover r := by
  induction ls generalizing t d with
  | nil =>
    cases h
    refine ⟨[], [], ⟨rfl, rfl, rfl, by simp, by simp⟩, le_rfl, by omega, rfl, rfl, ?_⟩
    intro i hi hlt
    omega
  | cons log rest ih =>
    simp only [FileTransport.writeLogs] at h
    cases hnext : writeNext t.timestamp d log io t.nextFileIndex with
    | mk r₁ found =>
      obtain ⟨index, d₁⟩ := found
      obtain ⟨last, rfl, hle, htaken, hahead, hends⟩ := writeNext_spec hnext
      cases r₁ with
      | error failure =>
        simp only [hnext] at h
        cases h
        obtain ⟨_, leftover, hdirectory, hremoved⟩ := hends
        refine ⟨[], leftover, ⟨rfl, rfl, rfl, by simpa using hdirectory, by simp⟩, ?_, ?_, ?_⟩
        · dsimp only
          omega
        · dsimp only
          rw [List.length_cons]
          omega
        · exact ⟨⟨log :: rest, List.cons_ne_nil _ _, rfl⟩, fun hall => hremoved (hall last)⟩
      | ok u =>
        simp only [hnext] at h
        obtain ⟨hdirectory, hcompletes⟩ := hends
        obtain ⟨files, leftover, hwrote, hmono, hbound, hfinished⟩ := ih h
        have hsame : ahead t.timestamp d₁ (last + 1) = ahead t.timestamp d (last + 1) := by
          apply ahead_append hdirectory
          intro f hf
          exact ⟨last, by omega, by rw [List.mem_singleton.mp hf]⟩
        dsimp only at hmono hbound
        refine ⟨(filePath t.timestamp last, log) :: files, leftover, ⟨hwrote.transport, ?_, ?_, ?_, ?_⟩,
          by omega, ?_, ?_⟩
        · rw [hwrote.fileCount, List.length_cons]
          dsimp only
          omega
        · rw [hwrote.totalSize, List.map_cons, List.flatten_cons, List.length_append]
          dsimp only
          omega
        · rw [hwrote.directory, hdirectory]
          simp
        · intro f hf
          rcases List.mem_cons.mp hf with rfl | hf
          · exact ⟨last, hle, by omega, rfl, hcompletes⟩
          · obtain ⟨i, hi, hlt, hname, hio⟩ := hwrote.names f hf
            dsimp only at hi hname
            exact ⟨i, by omega, hlt, hname, hio⟩
        · rw [List.length_cons]
          omega
        · cases r with
          | error failure =>
            obtain ⟨⟨unwritten, hne, hrest⟩, hremoved⟩ := hfinished
            exact ⟨⟨unwritten, hne, by rw [List.map_cons, List.cons_append, hrest]⟩, hremoved⟩
          | ok u =>
            obtain ⟨hrest, hleftover, htries⟩ := hfinished
            refine ⟨by rw [List.map_cons, hrest], hleftover, ?_⟩
            intro i hi hlt
            have hnames : d'.names = d.names ++ [filePath t.timestamp last] ++ files.map Prod.fst := by
              simp [Directory.names, hwrote.directory, hdirectory, hleftover]
            rcases Nat.lt_trichotomy i last with hbefore | rfl | hafter
            · rw [hnames]
              simp [htaken i hi hbefore]
            · rw [hnames]
              simp
            · exact htries i hafter hlt

namespace FileTransport

structure WithinLimits (t : FileTransport) : Prop where
  totalSize : 0 < t.maxTotalBytes → t.totalSize ≤ t.maxTotalBytes
  fileCount : 0 < t.maxFileCount → t.fileCount ≤ t.maxFileCount

/-- The checks in exact arithmetic. -/
def exactLimit (t : FileTransport) (payload : Bytes) (now : ℤ) : Option SendResult :=
  if 0 < t.maxDuration ∧ t.startedAt + t.maxDuration * 1000000 ≤ now then
    some .durationLimitReached
  else if 0 < t.maxTotalBytes ∧ t.maxTotalBytes < t.totalSize + payload.length then
    some .totalBytesLimitReached
  else if 0 < t.maxFileCount ∧ t.maxFileCount < t.fileCount + (logs payload).length then
    some .fileCountLimitReached
  else none

/-- The subtraction is only reached where it does not wrap. -/
theorem exceeds_iff {limit used more : ℕ} (hmore : 0 < more) :
    (limit ≤ used ∨ wrapSub limit used < more) ↔ limit < used + more := by
  unfold wrapSub
  split_ifs with hle
  · omega
  · omega

theorem limitReached_eq (t : FileTransport) {payload : Bytes} (h : payload ≠ []) (now : ℤ) :
    t.limitReached payload now = t.exactLimit payload now := by
  have hlength : 0 < payload.length := List.length_pos_iff.mpr h
  have hlogs : 0 < (logs payload).length := List.length_pos_iff.mpr fun hnil => h (logs_eq_nil hnil)
  have hduration : t.maxDuration * 1000000 ≤ now - t.startedAt ↔
      t.startedAt + t.maxDuration * 1000000 ≤ now := by omega
  simp only [limitReached, exactLimit, ← length_logs h, exceeds_iff hlength, exceeds_iff hlogs,
    hduration]

theorem exactLimit_eq_none {t : FileTransport} {payload : Bytes} {now : ℤ}
    (h : t.exactLimit payload now = none) :
    (0 < t.maxTotalBytes → t.totalSize + payload.length ≤ t.maxTotalBytes) ∧
      (0 < t.maxFileCount → t.fileCount + (logs payload).length ≤ t.maxFileCount) := by
  unfold exactLimit at h
  split_ifs at h with hduration hbytes hcount
  constructor
  · intro hlimit
    by_contra hover
    exact hbytes ⟨hlimit, by omega⟩
  · intro hlimit
    by_contra hover
    exact hcount ⟨hlimit, by omega⟩

theorem exactLimit_ne_sent (t : FileTransport) (payload : Bytes) (now : ℤ) :
    t.exactLimit payload now ≠ some .sent := by
  unfold exactLimit
  split_ifs
  all_goals nofun

end FileTransport

/-- What one call of `send` does, by its result. -/
def Delivers (t : FileTransport) (d : Directory) (payload : Bytes) (io : SendIo) :
    Except Failure SendResult × FileTransport × Directory → Prop
  | (.ok .sent, t', d') => ∃ files, Wrote io.file t d files [] t' d' ∧
      Pieces payload (files.map Prod.snd) ∧ (files.map Prod.fst).Nodup ∧
      (∀ f ∈ files, f.1 ∉ d.names ∧ ∀ i < t.nextFileIndex, f.1 ≠ filePath t.timestamp i) ∧
      ∀ i, t.nextFileIndex ≤ i → i < t'.nextFileIndex → filePath t.timestamp i ∈ d'.names
  | (.ok limit, t', d') => t' = t ∧ d' = d ∧ t.exactLimit payload io.now = some limit
  | (.error _, t', d') => (∀ i, (io.file i).removed = true) → ∃ files unwritten, unwritten ≠ [] ∧
      Wrote io.file t d files [] t' d' ∧ Pieces payload (files.map Prod.snd ++ unwritten)

/-- A connected transport within its limits. -/
structure Ready (t : FileTransport) : Prop where
  connected : t.timestamp ≠ []
  within : t.WithinLimits

theorem Wrote.fresh {io : ℕ → FileIo} {t t' : FileTransport} {d d' : Directory}
    {files leftover : List (Bytes × Bytes)} (h : Wrote io t d files leftover t' d') :
    (files.map Prod.fst).Nodup ∧
      ∀ f ∈ files, f.1 ∉ d.names ∧ ∀ i < t.nextFileIndex, f.1 ≠ filePath t.timestamp i := by
  have hnodup := d'.nodup
  rw [h.directory, List.map_append, List.map_append] at hnodup
  have hboth := (List.nodup_append.mp hnodup).1
  obtain ⟨_, hfiles, hdisjoint⟩ := List.nodup_append.mp hboth
  refine ⟨hfiles, ?_⟩
  intro f hf
  refine ⟨fun hmem => hdisjoint _ hmem _ (List.mem_map_of_mem hf) rfl, ?_⟩
  intro i hi heq
  obtain ⟨j, hj, _, hname, _⟩ := h.names f hf
  have hij : i = j := filePath_injective t.timestamp (heq.symm.trans hname)
  omega

/-- A list of pieces that is part of the payload's stays within what was checked. -/
theorem Wrote.withinLimits {io : ℕ → FileIo} {t t' : FileTransport} {d d' : Directory}
    {files leftover : List (Bytes × Bytes)} {payload : Bytes} {unwritten : List Bytes}
    (h : Wrote io t d files leftover t' d')
    (hpieces : files.map Prod.snd ++ unwritten = logs payload)
    (hbytes : 0 < t.maxTotalBytes → t.totalSize + payload.length ≤ t.maxTotalBytes)
    (hcount : 0 < t.maxFileCount → t.fileCount + (logs payload).length ≤ t.maxFileCount) :
    t'.WithinLimits := by
  have hlength : (files.map Prod.snd).flatten.length ≤ payload.length := by
    rw [← flatten_logs payload, ← hpieces, List.flatten_append, List.length_append]
    exact Nat.le_add_right _ _
  have hfiles : files.length ≤ (logs payload).length := by
    rw [← hpieces, List.length_append, List.length_map]
    exact Nat.le_add_right _ _
  have htotalSize := h.totalSize
  have hfileCount := h.fileCount
  rw [h.transport]
  constructor
  · intro hlimit
    have hfit := hbytes hlimit
    dsimp only
    omega
  · intro hlimit
    have hfit := hcount hlimit
    dsimp only
    omega

theorem send_spec {t : FileTransport} (hready : Ready t) (d : Directory) (payload : Bytes)
    (io : SendIo) :
    Delivers t d payload io (t.send d payload io) ∧ Ready (t.send d payload io).2.1 ∧
      (t.send d payload io).2.1.nextFileIndex ≤
        t.nextFileIndex + d.files.length + (logs payload).length := by
  rw [FileTransport.send, if_neg hready.connected]
  by_cases hempty : payload = []
  · subst hempty
    rw [if_pos rfl]
    refine ⟨⟨[], ⟨rfl, rfl, rfl, by simp, by simp⟩, pieces_logs [], by simp, by simp, ?_⟩, hready,
      by dsimp only; omega⟩
    intro i hi hlt
    omega
  · rw [if_neg hempty, FileTransport.limitReached_eq t hempty]
    cases hlimit : t.exactLimit payload io.now with
    | some limit =>
      refine ⟨?_, hready, by dsimp only; omega⟩
      cases limit with
      | sent => exact absurd hlimit (t.exactLimit_ne_sent payload io.now)
      | totalBytesLimitReached | fileCountLimitReached | durationLimitReached =>
        exact ⟨rfl, rfl, hlimit⟩
    | none =>
      obtain ⟨hbytes, hcount⟩ := FileTransport.exactLimit_eq_none hlimit
      cases hwrite : FileTransport.writeLogs io.file (logs payload) t d with
      | mk r written =>
        obtain ⟨t', d'⟩ := written
        obtain ⟨files, leftover, hwrote, hmono, hbound, hfinished⟩ := writeLogs_spec hwrite
        have hahead := ahead_le t.timestamp d t.nextFileIndex
        have hconnected : t'.timestamp ≠ [] := by
          rw [hwrote.transport]
          exact hready.connected
        cases r with
        | ok u =>
          obtain ⟨hlogs, rfl, htries⟩ := hfinished
          obtain ⟨hnodup, hfresh⟩ := hwrote.fresh
          have hpieces : files.map Prod.snd ++ [] = logs payload := by simpa using hlogs
          have hwithin := hwrote.withinLimits hpieces hbytes hcount
          refine ⟨⟨files, hwrote, ?_, hnodup, hfresh, htries⟩, ⟨hconnected, hwithin⟩,
            by dsimp only; omega⟩
          rw [hlogs]
          exact pieces_logs payload
        | error failure =>
          obtain ⟨⟨unwritten, hne, hlogs⟩, hremoved⟩ := hfinished
          have hwithin := hwrote.withinLimits hlogs hbytes hcount
          refine ⟨?_, ⟨hconnected, hwithin⟩, by dsimp only; omega⟩
          intro hall
          obtain rfl := hremoved hall
          refine ⟨files, unwritten, hne, hwrote, ?_⟩
          rw [hlogs]
          exact pieces_logs payload

/-- No system call of the files fails. -/
def SendIo.Completes (io : SendIo) (payload : Bytes) : Prop :=
  ∀ index, ∀ log ∈ logs payload, (io.file index).Completes log

theorem writeLogs_completes {io : ℕ → FileIo} {ls : List Bytes}
    (hio : ∀ index, ∀ log ∈ ls, (io index).Completes log) (t : FileTransport) (d : Directory) :
    (FileTransport.writeLogs io ls t d).1 = .ok () := by
  induction ls generalizing t d with
  | nil => rfl
  | cons log rest ih =>
    rw [FileTransport.writeLogs]
    cases hnext : writeNext t.timestamp d log io t.nextFileIndex with
    | mk r found =>
      obtain ⟨index, d'⟩ := found
      obtain ⟨last, _, _, _, _, hends⟩ := writeNext_spec hnext
      cases r with
      | error failure => exact absurd (hio last log List.mem_cons_self) hends.1
      | ok u => exact ih (fun i other hother => hio i other (List.mem_cons_of_mem log hother)) _ _

/-- A connected `send` reports a limit that is reached, and only a failing system call keeps it
from writing what is within the limits. -/
theorem send_progress {t : FileTransport} (hready : Ready t) (d : Directory) {payload : Bytes}
    (hne : payload ≠ []) (io : SendIo) :
    (∀ limit, t.exactLimit payload io.now = some limit → (t.send d payload io).1 = .ok limit) ∧
      (t.exactLimit payload io.now = none → io.Completes payload →
        (t.send d payload io).1 = .ok .sent) := by
  rw [FileTransport.send, if_neg hready.connected, if_neg hne, t.limitReached_eq hne]
  constructor
  · intro limit hlimit
    rw [hlimit]
  · intro hnone hcompletes
    have hwrites := writeLogs_completes hcompletes t d
    rw [hnone]
    dsimp only
    split
    · rfl
    · rename_i failure t' d' hfails
      rw [hfails] at hwrites
      cases hwrites

/-- The transport and the directory after a sequence of calls, whatever they returned. -/
def afterCalls (calls : List (Bytes × SendIo)) (s : FileTransport × Directory) :
    FileTransport × Directory :=
  calls.foldl (fun s call => (s.1.send s.2 call.1 call.2).2) s

theorem ready_afterCalls (calls : List (Bytes × SendIo)) {s : FileTransport × Directory}
    (h : Ready s.1) : Ready (afterCalls calls s).1 := by
  induction calls generalizing s with
  | nil => exact h
  | cons call calls ih => exact ih (send_spec h s.2 call.1 call.2).2.1

theorem ready_connect {endpoint : EndpointConfig} {io : ConnectIo} {t : FileTransport}
    (h : FileTransport.connect endpoint io = .ok t) : Ready t := by
  unfold FileTransport.connect at h
  split at h
  · cases h
  · cases h
    refine ⟨?_, fun _ => Nat.zero_le _, fun _ => Nat.zero_le _⟩
    intro hnil
    exact zeroPadded_ne_nil _ _ (List.append_eq_nil_iff.mp hnil).2

/-- After any calls on a connected transport the next one is exact, and all or nothing at
the limits; it tries at most one name for each file in the directory and each piece, and writes
what is within the limits unless a system call fails. -/
theorem send_exact (endpoint : EndpointConfig) (connectIo : ConnectIo) (t₀ : FileTransport)
    (hconnect : FileTransport.connect endpoint connectIo = .ok t₀) (d₀ : Directory)
    (calls : List (Bytes × SendIo)) (payload : Bytes) (io : SendIo) (t : FileTransport)
    (d : Directory) (hcalls : afterCalls calls (t₀, d₀) = (t, d)) :
    t.WithinLimits ∧ (t.send d payload io).2.1.WithinLimits ∧
      (payload ≠ [] → t.limitReached payload io.now = t.exactLimit payload io.now) ∧
      Delivers t d payload io (t.send d payload io) ∧
      (t.send d payload io).2.1.nextFileIndex ≤
        t.nextFileIndex + d.files.length + (logs payload).length ∧
      (payload ≠ [] →
        (∀ limit, t.exactLimit payload io.now = some limit → (t.send d payload io).1 = .ok limit) ∧
          (t.exactLimit payload io.now = none → io.Completes payload →
            (t.send d payload io).1 = .ok .sent)) := by
  have hready : Ready t := by
    have hafter := ready_afterCalls calls (s := (t₀, d₀)) (ready_connect hconnect)
    rw [hcalls] at hafter
    exact hafter
  obtain ⟨hdelivers, hready', htries⟩ := send_spec hready d payload io
  exact ⟨hready.within, hready'.within, fun hne => t.limitReached_eq hne io.now, hdelivers, htries,
    fun hne => send_progress hready d hne io⟩

/-- Nothing fails and no time passes. -/
def calmSend : SendIo where
  now := 0
  file := fun _ => {}

def calmConnect : ConnectIo where
  systemNow := 0
  localTime := fun _ => {}
  steadyNow := 0

theorem notMem_of_files {d d' : Directory} {name content : Bytes}
    (h : d'.files = d.files ++ [(name, content)]) : name ∉ d.names := by
  have hnodup := d'.nodup
  rw [h, List.map_append] at hnodup
  intro hmem
  exact (List.nodup_append.mp hnodup).2.2 name hmem name (List.mem_singleton_self name) rfl

/-- The log goes to the first name that is free. -/
theorem writeNext_first {timestamp log : Bytes} {d : Directory} {io : ℕ → FileIo} {index last : ℕ}
    (hle : index ≤ last) (hfree : filePath timestamp last ∉ d.names)
    (htaken : ∀ i, index ≤ i → i < last → filePath timestamp i ∈ d.names)
    (hio : ∀ i, (io i).Completes log) :
    ∃ d', writeNext timestamp d log io index = (.ok (), last + 1, d') ∧
      d'.files = d.files ++ [(filePath timestamp last, log)] := by
  rcases hnext : writeNext timestamp d log io index with ⟨r, index', d'⟩
  obtain ⟨last', rfl, hle', htaken', -, hends⟩ := writeNext_spec hnext
  cases r with
  | error failure => exact absurd (hio last') hends.1
  | ok u =>
    have hfree' := notMem_of_files hends.1
    obtain rfl : last' = last := by
      rcases lt_trichotomy last' last with hlt | heq | hgt
      · exact absurd (htaken last' hle' hlt) hfree'
      · exact heq
      · exact absurd (htaken' last hle hgt) hfree
    exact ⟨d', rfl, hends.1⟩

theorem completes_calmSend (index : ℕ) (log : Bytes) : (calmSend.file index).Completes log := by
  cases log with
  | nil => exact ⟨rfl, rfl, rfl⟩
  | cons b log => exact ⟨rfl, rfl, rfl⟩

theorem writeLogs_calm (t : FileTransport) (d : Directory) (log : Bytes) (rest : List Bytes)
    (last : ℕ) (hle : t.nextFileIndex ≤ last)
    (hfree : filePath t.timestamp last ∉ d.names)
    (htaken : ∀ i, t.nextFileIndex ≤ i → i < last → filePath t.timestamp i ∈ d.names) :
    ∃ d', d'.files = d.files ++ [(filePath t.timestamp last, log)] ∧
      FileTransport.writeLogs calmSend.file (log :: rest) t d =
        FileTransport.writeLogs calmSend.file rest
          { t with
            nextFileIndex := last + 1
            fileCount := t.fileCount + 1
            totalSize := t.totalSize + log.length } d' := by
  obtain ⟨d', hnext, hfiles⟩ :=
    writeNext_first hle hfree htaken fun i => completes_calmSend i log
  refine ⟨d', hfiles, ?_⟩
  rw [FileTransport.writeLogs, hnext]

theorem send_of_writeLogs {t t' : FileTransport} {d d' : Directory} {payload : Bytes} {io : SendIo}
    (hconnected : t.timestamp ≠ []) (hne : payload ≠ [])
    (hlimit : t.limitReached payload io.now = none)
    (hwrite : FileTransport.writeLogs io.file (logs payload) t d = (.ok (), t', d')) :
    t.send d payload io = (.ok .sent, t', d') := by
  rw [FileTransport.send, if_neg hconnected, if_neg hne, hlimit]
  dsimp only
  rw [hwrite]

def startedTransport : FileTransport := { timestamp := FileTransport.startTimestamp calmConnect }

/-- The directory holds a file under the second name of the transport. -/
def oldFile : Directory :=
  ⟨[(filePath startedTransport.timestamp 1, bytes "old")], List.nodup_singleton _⟩

theorem send_exact_second : ∃ t d t' d',
    FileTransport.connect {} calmConnect = .ok startedTransport ∧
    afterCalls [(bytes "first\n", calmSend)] (startedTransport, oldFile) = (t, d) ∧
    t.send d (bytes "second\nthird") calmSend = (.ok .sent, t', d') ∧
    d'.files = [(filePath startedTransport.timestamp 1, bytes "old"),
      (filePath startedTransport.timestamp 0, bytes "first\n"),
      (filePath startedTransport.timestamp 2, bytes "second\n"),
      (filePath startedTransport.timestamp 3, bytes "third")] ∧
    Delivers t d (bytes "second\nthird") calmSend (.ok .sent, t', d') := by
  have hname (i j : ℕ) : filePath startedTransport.timestamp i =
      filePath startedTransport.timestamp j ↔ i = j := (filePath_injective _).eq_iff
  obtain ⟨d₁, hfiles₁, hwrite₁⟩ := writeLogs_calm startedTransport oldFile (bytes "first\n") [] 0
    le_rfl (by simp [Directory.names, oldFile, hname]) (by omega)
  let t₁ : FileTransport :=
    { startedTransport with nextFileIndex := 1, fileCount := 1, totalSize := 6 }
  obtain ⟨d₂, hfiles₂, hwrite₂⟩ := writeLogs_calm t₁ d₁ (bytes "second\n") [bytes "third"] 2
    (by decide) (by simp [Directory.names, hfiles₁, oldFile, t₁, hname]) (by
      intro i hle hlt
      obtain rfl : i = 1 := by
        have hle' : 1 ≤ i := hle
        omega
      simp [Directory.names, hfiles₁, oldFile, t₁])
  obtain ⟨d₃, hfiles₃, hwrite₃⟩ := writeLogs_calm
    { t₁ with nextFileIndex := 3, fileCount := 2, totalSize := 13 } d₂ (bytes "third") [] 3
    le_rfl (by simp [Directory.names, hfiles₂, hfiles₁, oldFile, t₁, hname])
    fun i hle hlt => absurd hlt (not_lt.mpr hle)
  have hcalls : afterCalls [(bytes "first\n", calmSend)] (startedTransport, oldFile) =
      (t₁, d₁) := by
    have hsent : startedTransport.send oldFile (bytes "first\n") calmSend = (.ok .sent, t₁, d₁) :=
      send_of_writeLogs (by decide) (by decide) rfl hwrite₁
    rw [afterCalls, List.foldl_cons, hsent]
    rfl
  have hsend : t₁.send d₁ (bytes "second\nthird") calmSend = (.ok .sent,
      { t₁ with nextFileIndex := 4, fileCount := 3, totalSize := 18 }, d₃) :=
    send_of_writeLogs (by decide) (by decide) rfl (hwrite₂.trans hwrite₃)
  have hdelivers := (send_exact {} calmConnect startedTransport rfl oldFile
    [(bytes "first\n", calmSend)] (bytes "second\nthird") calmSend t₁ d₁ hcalls).2.2.2.1
  rw [hsend] at hdelivers
  refine ⟨t₁, d₁, _, d₃, rfl, hcalls, hsend, ?_, hdelivers⟩
  rw [hfiles₃, hfiles₂, hfiles₁]
  rfl

end Infrastructure
end LogGenerator
