import LogGenerator.Application.FileRun
import LogGenerator.Application.RatePacer
import LogGenerator.Presentation.CatalogViews
import LogGenerator.Presentation.TextFields

/-!
# What the front ends start

`run_generator` picks the samples for `--sample-id`, `start_test` reads the form. Both
check what they hand to `StressTestService::start`, and `start` never refuses it.
-/

namespace LogGenerator
namespace Presentation

open Application Domain

namespace CliApp

/-- The loop over the catalog, with what is still requested. -/
def pickRequested : List Bytes → List LogTemplate → List LogTemplate × List Bytes
  | requested, [] => ([], requested)
  | requested, item :: rest =>
    if item.id ∈ requested then
      let found := pickRequested (requested.filter fun id => id ≠ item.id) rest
      (item :: found.1, found.2)
    else pickRequested requested rest

/-- `front` is `*begin()` of an unordered set. -/
def selectTemplates (front : List Bytes → Bytes) (options : CliOptions)
    (catalog : List LogTemplate) : Except Failure (List LogTemplate) :=
  if options.allSamples then .ok catalog
  else
    let (templates, missing) := pickRequested options.sampleIds catalog
    if missing ≠ [] then
      argumentError (bytes "카탈로그에 없는 sample-id: " ++ front missing)
    else .ok templates

/-- `run_generator` up to the call of `start`. -/
def runConfig (front : List Bytes → Bytes) (options : CliOptions) (catalog : List LogTemplate) :
    Except Failure GeneratorConfig := do
  let templates ← selectTemplates front options catalog
  if templates = [] then argumentError (bytes "실행할 샘플 로그가 없습니다")
  else if options.config.endpoint.protocol ≠ .file ∧
      (options.config.endpoint.host = [] ∨ options.config.endpoint.port = 0) then
    argumentError (bytes "네트워크 프로토콜에는 --host와 --port가 필요합니다")
  else .ok { options.config with templates := templates }

variable {requested : List Bytes} {catalog : List LogTemplate}

def firstWith (id : Bytes) (items : List LogTemplate) : Option LogTemplate :=
  items.find? fun item => item.id == id

/-- The first item of each requested id, in the order of the catalog. -/
structure Picked (requested : List Bytes) (catalog templates : List LogTemplate) : Prop where
  sublist : templates.Sublist catalog
  nodup : (templates.map LogTemplate.id).Nodup
  asked : ∀ item ∈ templates, item.id ∈ requested
  first : ∀ id ∈ requested, firstWith id templates = firstWith id catalog

theorem pickRequested_spec (requested : List Bytes) (catalog : List LogTemplate) :
    Picked requested catalog (pickRequested requested catalog).1 ∧
    ∀ id, id ∈ (pickRequested requested catalog).2 ↔
      id ∈ requested ∧ ∀ item ∈ catalog, item.id ≠ id := by
  induction catalog generalizing requested with
  | nil => exact ⟨⟨.slnil, .nil, by simp [pickRequested], fun _ _ => rfl⟩, by simp [pickRequested]⟩
  | cons item rest ih =>
    unfold pickRequested
    split_ifs with hitem
    · obtain ⟨⟨hsublist, hnodup, hrequested, hfirst⟩, hmissing⟩ :=
        ih (requested.filter fun id => id ≠ item.id)
      simp only [List.mem_filter, decide_eq_true_eq] at hrequested hfirst hmissing
      refine ⟨⟨hsublist.cons_cons item, ?_, ?_, ?_⟩, ?_⟩
      · rw [List.map_cons, List.nodup_cons]
        refine ⟨fun hmem => ?_, hnodup⟩
        obtain ⟨other, hother, hid⟩ := List.mem_map.mp hmem
        exact (hrequested other hother).2 hid
      · intro other hother
        rcases List.mem_cons.mp hother with rfl | hother
        · exact hitem
        · exact (hrequested other hother).1
      · intro id hid
        unfold firstWith
        rw [List.find?_cons, List.find?_cons]
        cases hsame : item.id == id with
        | true => rfl
        | false =>
          have hne : id ≠ item.id := fun heq => by simp [heq] at hsame
          exact hfirst id ⟨hid, hne⟩
      · intro id
        rw [hmissing, List.forall_mem_cons]
        constructor
        · rintro ⟨⟨hid, hne⟩, hrest⟩
          exact ⟨hid, hne.symm, hrest⟩
        · rintro ⟨hid, hne, hrest⟩
          exact ⟨⟨hid, hne.symm⟩, hrest⟩
    · obtain ⟨⟨hsublist, hnodup, hrequested, hfirst⟩, hmissing⟩ := ih requested
      have hother {id : Bytes} (hid : id ∈ requested) : item.id ≠ id := fun heq =>
        hitem (heq ▸ hid)
      refine ⟨⟨hsublist.cons item, hnodup, hrequested, ?_⟩, ?_⟩
      · intro id hid
        rw [hfirst id hid, firstWith, firstWith, List.find?_cons,
          beq_eq_false_iff_ne.mpr (hother hid)]
      · intro id
        rw [hmissing, List.forall_mem_cons]
        exact ⟨fun h => ⟨h.1, hother h.1, h.2⟩, fun h => ⟨h.1, h.2.2⟩⟩

theorem selectTemplates_ok {front : List Bytes → Bytes} {options : CliOptions}
    {templates : List LogTemplate} (h : selectTemplates front options catalog = .ok templates) :
    (options.allSamples = true → templates = catalog) ∧
    (options.allSamples = false → Picked options.sampleIds catalog templates ∧
      ∀ id ∈ options.sampleIds, id ∈ templates.map LogTemplate.id) := by
  unfold selectTemplates at h
  split_ifs at h with hall
  · cases h
    exact ⟨fun _ => rfl, fun hfalse => by rw [hall] at hfalse; cases hfalse⟩
  · obtain ⟨hpicked, hmissing⟩ := pickRequested_spec options.sampleIds catalog
    cases hfound : pickRequested options.sampleIds catalog with
    | mk picked missing =>
      rw [hfound] at h hpicked hmissing
      dsimp only at h hpicked hmissing
      split_ifs at h with hnone
      · cases h
      · cases h
        refine ⟨fun htrue => absurd htrue hall, fun _ => ⟨hpicked, fun id hid => ?_⟩⟩
        by_contra hlacks
        apply hnone
        intro hempty
        have hcatalog : ∀ item ∈ catalog, item.id ≠ id := by
          intro item hitem heq
          have hfirst := hpicked.first id hid
          cases hfind : firstWith id catalog with
          | none =>
            have hno := List.find?_eq_none.mp hfind item hitem
            simp [heq] at hno
          | some found =>
            rw [hfind] at hfirst
            have hid' : found.id = id := by simpa using List.find?_some hfirst
            exact hlacks (List.mem_map.mpr ⟨found, List.mem_of_find?_eq_some hfirst, hid'⟩)
        have hleft := (hmissing id).mpr ⟨hid, hcatalog⟩
        rw [hempty] at hleft
        cases hleft

end CliApp

/-- What `start_test` reads of the form; texts end at their first NUL. No offset is the least
`int`, whose `std::abs` is undefined. -/
structure StartForm where
  protocol : TransportProtocol := .udp
  host : Bytes := bytes "127.0.0.1"
  port : ℤ := 514
  framing : StreamFraming := .newline
  udpIntegration : Bool := false
  fileMaxCount : ℤ := 0
  fileMaxDurationSeconds : ℤ := 0
  fileMaxTotalMib : ℕ := 0
  sourceIp : Bytes := bytes "10.0.0.10"
  destinationIp : Bytes := bytes "10.0.0.20"
  timestampMode : TimestampGenerationMode := .offset
  offsetNegative : Bool := false
  offsetDays : ℤ := 0
  offsetHours : ℤ := 0
  offsetMinutes : ℤ := 0
  rangeStart : Bytes := []
  rangeEnd : Bytes := []
  transmissionMode : TransmissionMode := .parallel
  targetEps : ℕ := 0
  ints : ∀ value ∈ [port, fileMaxCount, fileMaxDurationSeconds],
    -2 ^ 31 ≤ value ∧ value < 2 ^ 31 := by decide
  offsets : ∀ value ∈ [offsetDays, offsetHours, offsetMinutes], value.natAbs < 2 ^ 31 := by decide
  unsigned : fileMaxTotalMib < 2 ^ 64 ∧ targetEps < 2 ^ 64 := by decide

namespace StartForm

variable (f : StartForm)

/-- The limits are read for FILE only. -/
def endpoint : Except Bytes EndpointConfig :=
  let config : EndpointConfig :=
    { protocol := f.protocol
      host := f.host
      port := (f.port % 65536).toNat
      framing := f.framing
      udpPacketization := if f.udpIntegration then .newlinePacked else .oneEventPerDatagram }
  if f.protocol = .file then
    if f.fileMaxCount < 0 ∨ f.fileMaxDurationSeconds < 0 then
      .error (bytes "FILE 생성 제한은 0 이상의 값이어야 합니다.")
    else if (2 ^ 64 - 1) / CliApp.bytesPerMib < f.fileMaxTotalMib then
      .error (bytes "FILE 최대 총 생성량이 너무 큽니다.")
    else .ok { config with
      fileMaxTotalBytes := f.fileMaxTotalMib * CliApp.bytesPerMib
      fileMaxCount := f.fileMaxCount.toNat
      fileMaxDuration := f.fileMaxDurationSeconds * 1000 }
  else .ok config

def timestampGeneration : Except Bytes TimestampGeneration :=
  match f.timestampMode with
  | .offset => .ok
    { mode := .offset
      offset :=
        { negative := f.offsetNegative
          days := clamp f.offsetDays.natAbs 0 3650
          hours := clamp f.offsetHours.natAbs 0 23
          minutes := clamp f.offsetMinutes.natAbs 0 59 } }
  | .range =>
    match App.parseIsoDate f.rangeStart, App.parseIsoDate f.rangeEnd with
    | some start, some stop =>
      if stop < start then .error (bytes "기간 시작일은 종료일보다 늦을 수 없습니다.")
      else .ok { mode := .range, range := ⟨start * 86400, (stop + 1) * 86400 - 1⟩ }
    | _, _ => .error (bytes "기간은 yyyy-MM-dd 형식의 유효한 날짜여야 합니다.")

/-- `start_test` up to the call of `start`; `none` when it reads behind the list of items. -/
def startTest (views : CatalogViews) : Option (Except Bytes GeneratorConfig) :=
  if views.items = [] then some (.error (bytes "전송할 샘플 로그가 없습니다."))
  else if f.protocol ≠ .file ∧ (f.host = [] ∨ f.port < 1 ∨ 65535 < f.port) then
    some (.error (bytes "대상 IP/Host와 유효한 Port를 입력하세요."))
  else if !App.validIpv4 f.sourceIp || !App.validIpv4 f.destinationIp then
    some (.error (bytes "src_ip와 dst_ip는 유효한 IPv4 주소여야 합니다."))
  else
    match f.endpoint, f.timestampGeneration with
    | .error what, _ | .ok _, .error what => some (.error what)
    | .ok endpoint, .ok generation =>
      views.startTemplates.map fun templates =>
        if templates = [] then .error (bytes "검색 조건에 맞는 샘플 로그가 없습니다.")
        else .ok
          { endpoint := endpoint
            templates := templates
            sourceIp := f.sourceIp
            destinationIp := f.destinationIp
            timestampGeneration := generation
            transmissionMode := f.transmissionMode
            targetEps := f.targetEps }

end StartForm

/-- What the front ends check. -/
structure Checked (config : GeneratorConfig) : Prop where
  templates : config.templates ≠ []
  endpoint : config.endpoint.protocol ≠ .file →
    config.endpoint.host ≠ [] ∧ config.endpoint.port ≠ 0
  range : config.timestampGeneration.mode = .range →
    config.timestampGeneration.range.valid = true
  sourceIp : CliApp.validIpv4 config.sourceIp = true
  destinationIp : CliApp.validIpv4 config.destinationIp = true

/-- The service starts the run with the samples as they are, on a number of workers that leaves no
worker of a limited run without a share. -/
structure Started (config run : GeneratorConfig) (workerCount : ℕ) : Prop where
  templates : run.templates = config.templates
  generation : run.timestampGeneration = config.timestampGeneration
  workers : 1 ≤ workerCount ∧ workerCount ≤ 64
  file : config.endpoint.protocol = .file → workerCount = 1 ∧ run.endpoint.framing = .newline
  quotas : 0 < config.targetEps →
    ∑ i ∈ Finset.range workerCount, quotaForWorker run.targetEps i workerCount = config.targetEps ∧
      ∀ i, 1 ≤ quotaForWorker run.targetEps i workerCount

theorem clamp_bounds (value : ℕ) : 1 ≤ clamp value 1 64 ∧ clamp value 1 64 ≤ 64 := by
  unfold clamp
  split_ifs
  all_goals omega

theorem parallel_bounds (parallel : Prop) [Decidable parallel] (value : ℕ) :
    1 ≤ (if parallel then clamp value 1 64 else 1) ∧
      (if parallel then clamp value 1 64 else 1) ≤ 64 := by
  split_ifs
  · exact clamp_bounds value
  · omega

theorem limited_bounds {workers : ℕ} (h : 1 ≤ workers ∧ workers ≤ 64) (targetEps : ℕ) :
    1 ≤ (if 0 < targetEps then min workers targetEps else workers) ∧
      (if 0 < targetEps then min workers targetEps else workers) ≤ 64 := by
  split_ifs
  all_goals omega

theorem started_of_start {optimalWorkerCount : TransportProtocol → ℕ} {config run : GeneratorConfig}
    {workerCount : ℕ} (h : start optimalWorkerCount config = .ok (run, workerCount)) :
    Started config run workerCount := by
  have hfile (hprotocol : config.endpoint.protocol = .file) :
      workerCount = 1 ∧ run.endpoint.framing = .newline := by
    obtain ⟨hworkers, -, -, -, hframing, -⟩ := start_file h hprotocol
    exact ⟨hworkers, hframing⟩
  have hquotas (heps : 0 < config.targetEps) :
      ∑ i ∈ Finset.range workerCount, quotaForWorker run.targetEps i workerCount =
          config.targetEps ∧
        ∀ i, 1 ≤ quotaForWorker run.targetEps i workerCount := by
    obtain ⟨hsame, hpos, hle⟩ := start_workerCount h heps
    rw [hsame]
    exact ⟨sum_quotaForWorker _ hpos, one_le_quotaForWorker hpos hle⟩
  unfold start at h
  split at h
  · cases h
  split at h
  · cases h
  split at h
  · cases h
  obtain ⟨rfl, rfl⟩ := Prod.mk.inj (Except.ok.inj h)
  exact ⟨rfl, rfl, limited_bounds (parallel_bounds _ _) _, hfile, hquotas⟩

theorem Checked.exists_started {config : GeneratorConfig} (h : Checked config)
    (optimalWorkerCount : TransportProtocol → ℕ) : ∃ run workerCount,
      start optimalWorkerCount config = .ok (run, workerCount) ∧
        Started config run workerCount := by
  obtain ⟨htemplates, hendpoint, hrange, -, -⟩ := h
  have hok : ∃ run workerCount, start optimalWorkerCount config = .ok (run, workerCount) := by
    unfold start
    rw [if_neg htemplates, if_neg (fun h => ?_), if_neg (fun h => ?_)]
    · exact ⟨_, _, rfl⟩
    · rw [hrange h.1] at h
      cases h.2
    · obtain ⟨hhost, hport⟩ := hendpoint h.1
      rcases h.2 with h | h
      · exact hhost h
      · exact hport h
  obtain ⟨run, workerCount, hstart⟩ := hok
  exact ⟨run, workerCount, hstart, started_of_start hstart⟩

theorem wholeDays_valid {start stop : ℤ} (h : start ≤ stop) :
    TimeRange.valid ⟨start * 86400, (stop + 1) * 86400 - 1⟩ = true := by
  unfold TimeRange.valid
  rw [decide_eq_true_eq]
  dsimp only
  omega

/-- The range of accepted arguments is not empty. -/
theorem range_of_parseArguments {arguments : List Bytes} {options : CliOptions}
    (h : CliApp.parseArguments arguments = .ok options)
    (hmode : options.config.timestampGeneration.mode = .range) :
    options.config.timestampGeneration.range.valid = true := by
  obtain ⟨rest, command, st, -, hparsed, hfinish⟩ := CliApp.exists_parsed h
  obtain ⟨generation, rfl, hcases⟩ :=
    CliApp.finish_ok hfinish (CliApp.generation_of_parsed hparsed)
  rcases hcases with ⟨start, stop, -, -, hle, rfl⟩ | ⟨-, -, -, rfl⟩
  · exact wholeDays_valid hle
  · cases hmode

theorem checked_runConfig {front : List Bytes → Bytes} {arguments : List Bytes}
    {options : CliOptions} {catalog : List LogTemplate} {config : GeneratorConfig}
    (h : CliApp.parseArguments arguments = .ok options)
    (hrun : CliApp.runConfig front options catalog = .ok config) :
    Checked config ∧ ∃ templates, CliApp.selectTemplates front options catalog = .ok templates ∧
      config.templates = templates := by
  unfold CliApp.runConfig at hrun
  simp only [bind, Except.bind] at hrun
  split at hrun
  · cases hrun
  · rename_i templates hselect
    split_ifs at hrun with hempty hnetwork
    · cases hrun
    · cases hrun
    · cases hrun
      obtain ⟨hsource, hdestination⟩ := validIpv4_of_parseArguments h
      refine ⟨⟨hempty, fun hprotocol => ?_, range_of_parseArguments h, hsource, hdestination⟩,
        templates, hselect, rfl⟩
      exact not_or.mp fun hmissing => hnetwork ⟨hprotocol, hmissing⟩

theorem StartForm.endpoint_ok {f : StartForm} {endpoint : EndpointConfig}
    (h : f.endpoint = .ok endpoint) : endpoint.protocol = f.protocol ∧ endpoint.host = f.host ∧
      endpoint.port = (f.port % 65536).toNat := by
  unfold StartForm.endpoint at h
  split_ifs at h
  all_goals cases h
  all_goals exact ⟨rfl, rfl, rfl⟩

theorem StartForm.timestampGeneration_ok {f : StartForm} {generation : TimestampGeneration}
    (h : f.timestampGeneration = .ok generation) (hmode : generation.mode = .range) :
    generation.range.valid = true := by
  unfold StartForm.timestampGeneration at h
  split at h
  · cases h
    cases hmode
  · split at h
    · split_ifs at h with hle
      cases h
      exact wholeDays_valid (not_lt.mp hle)
    · cases h

theorem StartForm.checked_startTest {f : StartForm} {views : CatalogViews}
    {config : GeneratorConfig} (h : f.startTest views = some (.ok config)) :
    Checked config ∧ views.startTemplates = some config.templates := by
  unfold StartForm.startTest at h
  split_ifs at h with hitems hnetwork haddresses
  · cases h
  · cases h
  · cases h
  split at h
  · cases h
  · cases h
  · rename_i endpoint generation hendpoint hgeneration
    obtain ⟨templates, htemplates, hconfig⟩ := Option.map_eq_some_iff.mp h
    split_ifs at hconfig with hempty
    cases hconfig
    obtain ⟨hprotocol, hhost, hport⟩ := StartForm.endpoint_ok hendpoint
    simp only [Bool.or_eq_true, Bool.not_eq_true', not_or, Bool.not_eq_false] at haddresses
    refine ⟨⟨hempty, fun hnetworked => ?_, StartForm.timestampGeneration_ok hgeneration, ?_, ?_⟩,
      htemplates⟩
    · dsimp only at hnetworked ⊢
      rw [hprotocol] at hnetworked
      rw [hhost, hport]
      have hpresent : ¬ (f.host = [] ∨ f.port < 1 ∨ 65535 < f.port) := fun hmissing =>
        hnetwork ⟨hnetworked, hmissing⟩
      push Not at hpresent
      exact ⟨hpresent.1, by omega⟩
    · rw [← validIpv4_eq]
      exact haddresses.1
    · rw [← validIpv4_eq]
      exact haddresses.2

/-- What either front end hands to `start` is never refused: it becomes a run of the chosen
samples. For `run` these are the whole catalog, or the first item of each requested id in the order
of the catalog, with none missing; for the form they are what the views show. -/
theorem starts_accepted (optimalWorkerCount : TransportProtocol → ℕ) :
    (∀ front arguments options catalog config,
      CliApp.parseArguments arguments = .ok options →
      CliApp.runConfig front options catalog = .ok config →
        (options.allSamples = true → config.templates = catalog) ∧
        (options.allSamples = false →
          CliApp.Picked options.sampleIds catalog config.templates ∧
            ∀ id ∈ options.sampleIds, id ∈ config.templates.map LogTemplate.id) ∧
        ∃ run workerCount, start optimalWorkerCount config = .ok (run, workerCount) ∧
          Started config run workerCount) ∧
    (∀ (form : StartForm) (views : CatalogViews) config,
      form.startTest views = some (.ok config) →
        views.startTemplates = some config.templates ∧
        ∃ run workerCount, start optimalWorkerCount config = .ok (run, workerCount) ∧
          Started config run workerCount) := by
  constructor
  · intro front arguments options catalog config hparse hrun
    obtain ⟨hchecked, templates, hselect, rfl⟩ := checked_runConfig hparse hrun
    obtain ⟨hall, hsome⟩ := CliApp.selectTemplates_ok hselect
    exact ⟨hall, hsome, hchecked.exists_started optimalWorkerCount⟩
  · intro form views config hstart
    obtain ⟨hchecked, htemplates⟩ := StartForm.checked_startTest hstart
    exact ⟨htemplates, hchecked.exists_started optimalWorkerCount⟩

def twoSamples : List LogTemplate :=
  [{ id := bytes "0001", sample := bytes "up" }, { id := bytes "0002", sample := bytes "down" }]

def secondSample : List Bytes := [bytes "run", bytes "--sample-id", bytes "0002"]

theorem starts_accepted_secondSample : ∃ config, config.templates = [twoSamples[1]] ∧
    ∃ run workerCount, start (fun _ => 4) config = .ok (run, workerCount) ∧
      Started config run workerCount := by
  obtain ⟨options, config, hparse, hrun, htemplates⟩ :
      ∃ options config, CliApp.parseArguments secondSample = .ok options ∧
        CliApp.runConfig (fun ids => ids.headD []) options twoSamples = .ok config ∧
        config.templates = [twoSamples[1]] := ⟨_, _, rfl, rfl, rfl⟩
  have haccepted := (starts_accepted fun _ => 4).1 _ _ _ _ _ hparse hrun
  exact ⟨config, htemplates, haccepted.2.2⟩

end Presentation
end LogGenerator
