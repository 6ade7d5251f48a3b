import LogGenerator.Foundation.FromChars
import LogGenerator.Foundation.Gregorian
import LogGenerator.Infrastructure.JsonLogCatalog

/-!
# The command line

`CliApp::parse_arguments`: its loop over the options, and the checks after it.
-/

namespace LogGenerator
namespace Presentation

open Ascii Application Domain

inductive CliCommand where
  | help | list | run
  deriving DecidableEq, Repr

/-- The duration is in seconds, the status interval in milliseconds. The last three fields
belong to the endpoint of the configuration. -/
structure CliOptions where
  command : CliCommand := .help
  config : GeneratorConfig := { endpoint := { protocol := .file } }
  catalogFile : Bytes := []
  sampleIds : List Bytes := []
  duration : ℤ := 0
  statusInterval : ℤ := 1000
  allSamples : Bool := false
  quiet : Bool := false
  tlsServerName : Bytes := []
  verifyCertificate : Bool := true
  fileOutputDirectory : Bytes := []
  deriving DecidableEq

namespace CliApp

def argumentError {α : Type} (what : Bytes) : Except Failure α := .error (.exception what)

def lowercase (value : Bytes) : Bytes := value.map toLower

/-- For an unsigned type whose values are at most `maximum`. -/
def parseUnsigned (maximum : ℕ) (text option : Bytes) : Except Failure ℕ :=
  match fromChars (2 ^ 64 - 1) text with
  | some (parsed, []) =>
    if maximum < parsed then
      argumentError (option ++ bytes " 값이 올바른 양의 정수가 아닙니다: " ++ text)
    else .ok parsed
  | _ => argumentError (option ++ bytes " 값이 올바른 양의 정수가 아닙니다: " ++ text)

def parseSigned (text option : Bytes) : Except Failure ℤ :=
  match fromCharsSigned (2 ^ 63 - 1) text with
  | some (parsed, []) => .ok parsed
  | _ => argumentError (option ++ bytes " 값이 올바른 정수가 아닙니다: " ++ text)

/-- The number of the day. -/
def parseDate (text option : Bytes) : Except Failure ℤ :=
  if text.length ≠ 10 ∨ text[4]? ≠ some minus ∨ text[7]? ≠ some minus then
    argumentError (option ++ bytes " 값은 yyyy-MM-dd 형식이어야 합니다")
  else
    match fromCharsSigned (2 ^ 31 - 1) (text.take 4), fromChars (2 ^ 32 - 1) ((text.drop 5).take 2),
      fromChars (2 ^ 32 - 1) (text.drop 8) with
    | some (year, []), some (month, []), some (day, []) =>
      if Gregorian.IsDate year month day then .ok (Gregorian.dayNumber year month day)
      else argumentError (option ++ bytes " 값에 유효하지 않은 날짜가 있습니다")
    | _, _, _ => argumentError (option ++ bytes " 값에 유효하지 않은 날짜가 있습니다")

def validIpv4Part (part : Bytes) : Bool :=
  part ≠ [] && part.length ≤ 3 &&
    match fromCharsSigned (2 ^ 31 - 1) part with
    | some (number, []) => 0 ≤ number && number ≤ 255
    | _ => false

def validIpv4 (value : Bytes) : Bool :=
  let parts := value.splitOn 46
  parts.all validIpv4Part && parts.length = 4

/-- The choice that the value names in any case of its letters. -/
def choose {α : Type} (choices : List (String × α)) (complaint : String) (value : Bytes) :
    Except Failure α :=
  match choices.find? fun choice => bytes choice.1 == lowercase value with
  | some choice => .ok choice.2
  | none => argumentError (bytes complaint)

/-- The local variables of `parse_arguments`; dates are numbers of days. -/
structure ParseState where
  options : CliOptions := {}
  rangeStart : Option ℤ := none
  rangeEnd : Option ℤ := none
  offsetMinutes : ℤ := 0

/-- An option that takes a value: what it reads the value as, and where it puts that. -/
def assign {α : Type} (read : Bytes → Except Failure α) (store : α → ParseState → ParseState)
    (value : Bytes) (st : ParseState) : Except Failure ParseState :=
  (read value).map fun x => store x st

theorem assign_ok {α : Type} {read : Bytes → Except Failure α}
    {store : α → ParseState → ParseState} {value : Bytes} {st st' : ParseState}
    (h : assign read store value st = .ok st') :
    ∃ x, read value = .ok x ∧ st' = store x st := by
  unfold assign at h
  cases hread : read value with
  | error failure =>
    rw [hread] at h
    cases h
  | ok x =>
    rw [hread] at h
    cases h
    exact ⟨x, rfl, rfl⟩

def readText (value : Bytes) : Except Failure Bytes := .ok value

def readSampleId (value : Bytes) : Except Failure Bytes :=
  if !validSampleId value then
    argumentError (bytes "--sample-id 값은 숫자로만 구성되어야 합니다")
  else .ok value

def readPort (value : Bytes) : Except Failure ℕ := do
  let port ← parseUnsigned (2 ^ 16 - 1) value (bytes "--port")
  if port = 0 then argumentError (bytes "--port 값은 1 이상이어야 합니다") else .ok port

/-- The largest count of `std::chrono::seconds` and of `std::chrono::milliseconds`. -/
def largestCount : ℕ := 2 ^ 63 - 1

def readDuration (value : Bytes) : Except Failure ℕ := do
  let seconds ← parseUnsigned (2 ^ 64 - 1) value (bytes "--duration")
  if largestCount < seconds then argumentError (bytes "--duration 값이 너무 큽니다") else .ok seconds

def readStatusInterval (value : Bytes) : Except Failure ℕ := do
  let seconds ← parseUnsigned (2 ^ 64 - 1) value (bytes "--status-interval")
  if seconds = 0 ∨ largestCount / 1000 < seconds then
    argumentError (bytes "--status-interval 값은 1 이상의 초여야 합니다")
  else .ok seconds

def bytesPerMib : ℕ := 1024 * 1024

def readFileMaxMib (value : Bytes) : Except Failure ℕ := do
  let mib ← parseUnsigned (2 ^ 64 - 1) value (bytes "--file-max-mib")
  if (2 ^ 64 - 1) / bytesPerMib < mib then argumentError (bytes "--file-max-mib 값이 너무 큽니다")
  else .ok mib

def readFileMaxDuration (value : Bytes) : Except Failure ℕ := do
  let seconds ← parseUnsigned (2 ^ 64 - 1) value (bytes "--file-max-duration")
  if largestCount / 1000 < seconds then
    argumentError (bytes "--file-max-duration 값이 너무 큽니다")
  else .ok seconds

def setCatalog := assign readText fun value st => { st with options.catalogFile := value }

def setSampleId := assign readSampleId fun value st =>
  { st with options.sampleIds := st.options.sampleIds ++ [value] }

def setProtocol := assign
  (choose [("udp", TransportProtocol.udp), ("tcp", .tcp), ("tls", .tls), ("file", .file)]
    "--protocol 값은 udp, tcp, tls, file 중 하나여야 합니다")
  fun protocol st => { st with options.config.endpoint.protocol := protocol }

def setHost := assign readText fun value st => { st with options.config.endpoint.host := value }

def setPort := assign readPort fun port st => { st with options.config.endpoint.port := port }

def setUdpIntegration := assign
  (choose [("deny", UdpPacketization.oneEventPerDatagram), ("allow", .newlinePacked)]
    "--udp-integration 값은 deny 또는 allow여야 합니다")
  fun packetization st => { st with options.config.endpoint.udpPacketization := packetization }

def setTlsServerName := assign readText fun value st =>
  { st with options.tlsServerName := value }

def setFraming := assign
  (choose [("newline", StreamFraming.newline), ("octet", .octetCounting)]
    "--framing 값은 newline 또는 octet이어야 합니다")
  fun framing st => { st with options.config.endpoint.framing := framing }

def setSourceIp := assign readText fun value st => { st with options.config.sourceIp := value }

def setDestinationIp := assign readText fun value st =>
  { st with options.config.destinationIp := value }

def setMode := assign
  (choose [("sequential", TransmissionMode.sequential), ("parallel", .parallel)]
    "--mode 값은 sequential 또는 parallel이어야 합니다")
  fun mode st => { st with options.config.transmissionMode := mode }

def setEps := assign (fun value => parseUnsigned (2 ^ 64 - 1) value (bytes "--eps"))
  fun eps st => { st with options.config.targetEps := eps }

def setDuration := assign readDuration fun seconds st => { st with options.duration := seconds }

def setStatusInterval := assign readStatusInterval fun seconds st =>
  { st with options.statusInterval := seconds * 1000 }

def setOutputDir := assign readText fun value st => { st with options.fileOutputDirectory := value }

def setFileMaxMib := assign readFileMaxMib fun mib st =>
  { st with options.config.endpoint.fileMaxTotalBytes := mib * bytesPerMib }

def setFileMaxCount := assign
  (fun value => parseUnsigned (2 ^ 32 - 1) value (bytes "--file-max-count"))
  fun count st => { st with options.config.endpoint.fileMaxCount := count }

def setFileMaxDuration := assign readFileMaxDuration fun seconds st =>
  { st with options.config.endpoint.fileMaxDuration := seconds * 1000 }

def setOffsetMinutes := assign (fun value => parseSigned value (bytes "--offset-minutes"))
  fun minutes st => { st with offsetMinutes := minutes }

def setFrom := assign (fun value => parseDate value (bytes "--from"))
  fun date st => { st with rangeStart := some date }

def setTo := assign (fun value => parseDate value (bytes "--to"))
  fun date st => { st with rangeEnd := some date }

/-- The options that take a value, and what each does with it. -/
def valueOptions : List (String × (Bytes → ParseState → Except Failure ParseState)) :=
  [("--catalog", setCatalog), ("--sample-id", setSampleId), ("--protocol", setProtocol),
    ("--host", setHost), ("--port", setPort), ("--udp-integration", setUdpIntegration),
    ("--tls-server-name", setTlsServerName), ("--framing", setFraming),
    ("--source-ip", setSourceIp), ("--destination-ip", setDestinationIp), ("--mode", setMode),
    ("--eps", setEps), ("--duration", setDuration), ("--status-interval", setStatusInterval),
    ("--output-dir", setOutputDir), ("--file-max-mib", setFileMaxMib),
    ("--file-max-count", setFileMaxCount), ("--file-max-duration", setFileMaxDuration),
    ("--offset-minutes", setOffsetMinutes), ("--from", setFrom), ("--to", setTo)]

def setFlag (option : Bytes) (st : ParseState) : Option ParseState :=
  if option = bytes "--help" ∨ option = bytes "-h" then some { st with options.command := .help }
  else if option = bytes "--all" then some { st with options.allSamples := true }
  else if option = bytes "--insecure" then some { st with options.verifyCertificate := false }
  else if option = bytes "--quiet" then some { st with options.quiet := true }
  else none

def valueOption (option : Bytes) : Option (Bytes → ParseState → Except Failure ParseState) :=
  (valueOptions.find? fun entry => bytes entry.1 == option).map (·.2)

/-- The loop over the options. -/
def parseOptions : List Bytes → ParseState → Except Failure ParseState
  | [], st => .ok st
  | option :: rest, st =>
    match setFlag option st with
    | some st => parseOptions rest st
    | none =>
      match valueOption option, rest with
      | none, _ => argumentError (bytes "알 수 없는 옵션: " ++ option)
      | some _, [] => argumentError (option ++ bytes " 옵션에 값이 필요합니다")
      | some set, value :: rest =>
        match set value st with
        | .error failure => .error failure
        | .ok st => parseOptions rest st

def minutesPerDay : ℕ := 24 * 60

def setRange (options : CliOptions) (start stop : ℤ) : Except Failure CliOptions :=
  if stop < start then argumentError (bytes "--from 날짜는 --to 날짜보다 늦을 수 없습니다")
  else .ok { options with
    config.timestampGeneration.mode := .range
    config.timestampGeneration.range := { start := start * 86400, stop := (stop + 1) * 86400 - 1 } }

def setOffset (options : CliOptions) (offsetMinutes : ℤ) : Except Failure CliOptions :=
  let magnitude := offsetMinutes.natAbs
  if 2 ^ 31 - 1 < magnitude / minutesPerDay then
    argumentError (bytes "--offset-minutes 값이 너무 큽니다")
  else .ok { options with
    config.timestampGeneration.offset :=
      { negative := offsetMinutes < 0
        days := (magnitude / minutesPerDay : ℕ)
        hours := (magnitude % minutesPerDay / 60 : ℕ)
        minutes := (magnitude % 60 : ℕ) } }

def checkSelection (options : CliOptions) : Except Failure Unit :=
  match options.command with
  | .run =>
    if options.allSamples ∧ options.sampleIds ≠ [] then
      argumentError (bytes "--all과 --sample-id는 함께 사용할 수 없습니다")
    else if options.allSamples = false ∧ options.sampleIds = [] then
      argumentError (bytes "--all 또는 --sample-id를 지정해야 합니다")
    else .ok ()
  | .list =>
    if options.allSamples ∨ options.sampleIds ≠ [] then
      argumentError (bytes "--all과 --sample-id는 run 명령에서만 사용할 수 있습니다")
    else .ok ()
  | .help => .ok ()

def checkEndpoint (config : GeneratorConfig) : Except Failure Unit :=
  if !validIpv4 config.sourceIp || !validIpv4 config.destinationIp then
    argumentError (bytes "--source-ip와 --destination-ip는 유효한 IPv4 주소여야 합니다")
  else if config.endpoint.udpPacketization = .newlinePacked ∧ config.endpoint.protocol ≠ .udp then
    argumentError (bytes "--udp-integration allow는 UDP 프로토콜에서만 사용할 수 있습니다")
  else .ok ()

def finish (st : ParseState) : Except Failure CliOptions := do
  checkSelection st.options
  checkEndpoint st.options.config
  match st.rangeStart, st.rangeEnd with
  | some start, some stop => setRange st.options start stop
  | none, none => setOffset st.options st.offsetMinutes
  | _, _ => argumentError (bytes "--from과 --to는 함께 지정해야 합니다")

def parseCommand (command : Bytes) : Except Failure CliCommand :=
  if command = bytes "list" then .ok .list
  else if command = bytes "run" then .ok .run
  else argumentError (bytes "첫 번째 인자는 list 또는 run이어야 합니다")

def parseArguments : List Bytes → Except Failure CliOptions
  | [] => .ok {}
  | first :: rest =>
    let command := lowercase first
    if command ∈ [bytes "--help", bytes "-h", bytes "help"] then .ok {}
    else do
      let command ← parseCommand command
      let st ← parseOptions rest { options := { command := command } }
      finish st

/-- The loop ran through the list, each flag and each option with its value at a time. -/
inductive Parsed : List Bytes → ParseState → ParseState → Prop
  | done (st : ParseState) : Parsed [] st st
  | flag {option : Bytes} {rest : List Bytes} {st mid st' : ParseState}
      (set : setFlag option st = some mid) (behind : Parsed rest mid st') :
      Parsed (option :: rest) st st'
  | value {option value : Bytes} {rest : List Bytes} {st mid st' : ParseState}
      {set : Bytes → ParseState → Except Failure ParseState}
      (option_eq : valueOption option = some set) (set_eq : set value st = .ok mid)
      (behind : Parsed rest mid st') : Parsed (option :: value :: rest) st st'

theorem parsed_of_parseOptions : ∀ {rest : List Bytes} {st st' : ParseState},
    parseOptions rest st = .ok st' → Parsed rest st st'
  | [], st, st', h => by
    cases h
    exact .done st
  | option :: rest, st, st', h => by
    unfold parseOptions at h
    split at h
    · rename_i mid hflag
      exact .flag hflag (parsed_of_parseOptions h)
    · split at h
      · cases h
      · cases h
      · rename_i set value rest _ hoption
        split at h
        · cases h
        · rename_i mid hset
          exact .value hoption hset (parsed_of_parseOptions h)

/-- The options with their values, in order. -/
def settings : List Bytes → List (Bytes × Bytes)
  | option :: value :: rest =>
    if (valueOption option).isSome then (option, value) :: settings rest
    else settings (value :: rest)
  | _ => []

/-- The value given last for the option. -/
def lastValue (name : Bytes) : List (Bytes × Bytes) → Option Bytes
  | [] => none
  | entry :: entries => (lastValue name entries).or (if entry.1 = name then some entry.2 else none)

theorem settings_flag {option : Bytes} (h : valueOption option = none) (rest : List Bytes) :
    settings (option :: rest) = settings rest := by
  cases rest with
  | nil => rfl
  | cons value rest => rw [settings, h]; rfl

theorem valueOption_of_setFlag {option : Bytes} {st st' : ParseState}
    (h : setFlag option st = some st') : valueOption option = none := by
  unfold setFlag at h
  split_ifs at h with h₁ h₂ h₃ h₄
  · rcases h₁ with rfl | rfl <;> decide
  · rw [h₂]
    decide
  · rw [h₃]
    decide
  · rw [h₄]
    decide

theorem exists_of_valueOption {option : Bytes}
    {set : Bytes → ParseState → Except Failure ParseState} (h : valueOption option = some set) :
    ∃ name, bytes name = option ∧ (name, set) ∈ valueOptions := by
  obtain ⟨⟨name, set⟩, hentry, rfl⟩ := Option.map_eq_some_iff.mp h
  exact ⟨name, by simpa using List.find?_some hentry, List.mem_of_find?_eq_some hentry⟩

/-- A part of the state that one option sets, to what its value is read as. -/
structure SetBy {α : Type} (name : String) (part : ParseState → α) (Reads : Bytes → α → Prop) :
    Prop where
  flag : ∀ {option st st'}, setFlag option st = some st' → part st' = part st
  set : ∀ {set value st st'}, valueOption (bytes name) = some set → set value st = .ok st' →
    Reads value (part st')
  other : ∀ {other set}, (other, set) ∈ valueOptions → bytes other ≠ bytes name →
    ∀ {value st st'}, set value st = .ok st' → part st' = part st

/-- The last value counts; without one the part stays. -/
theorem SetBy.last {α : Type} {name : String} {part : ParseState → α} {Reads : Bytes → α → Prop}
    (h : SetBy name part Reads) {rest : List Bytes} {st st' : ParseState}
    (hparsed : Parsed rest st st') :
    match lastValue (bytes name) (settings rest) with
    | none => part st' = part st
    | some value => Reads value (part st') := by
  induction hparsed with
  | done st => rfl
  | flag hset _ ih =>
    rw [settings_flag (valueOption_of_setFlag hset), ← h.flag hset]
    exact ih
  | @value option value rest st mid st' set hoption hset _ ih =>
    rw [settings, hoption, Option.isSome_some, if_pos rfl, lastValue]
    obtain ⟨other, rfl, hmem⟩ := exists_of_valueOption hoption
    cases hlast : lastValue (bytes name) (settings rest) with
    | some last =>
      rw [hlast] at ih
      exact ih
    | none =>
      rw [hlast] at ih
      simp only at ih
      rw [Option.none_or]
      by_cases hname : bytes other = bytes name
      · rw [hname] at hoption
        rw [if_pos hname, ih]
        exact h.set hoption hset
      · rw [if_neg hname]
        exact ih.trans (h.other hmem hname hset)

/-- The parts of the state that times are made of, and the options that set them. -/
structure KeepsTimes (option : Bytes) (st st' : ParseState) : Prop where
  offsetMinutes : option ≠ bytes "--offset-minutes" → st'.offsetMinutes = st.offsetMinutes
  rangeStart : option ≠ bytes "--from" → st'.rangeStart = st.rangeStart
  rangeEnd : option ≠ bytes "--to" → st'.rangeEnd = st.rangeEnd
  duration : option ≠ bytes "--duration" → st'.options.duration = st.options.duration
  statusInterval : option ≠ bytes "--status-interval" →
    st'.options.statusInterval = st.options.statusInterval
  fileMaxDuration : option ≠ bytes "--file-max-duration" →
    st'.options.config.endpoint.fileMaxDuration = st.options.config.endpoint.fileMaxDuration
  generation : st'.options.config.timestampGeneration = st.options.config.timestampGeneration

theorem keepsTimes_flag {option : Bytes} {st st' : ParseState} (h : setFlag option st = some st')
    (name : Bytes) : KeepsTimes name st st' := by
  unfold setFlag at h
  split_ifs at h
  all_goals
    cases h
    exact ⟨fun _ => rfl, fun _ => rfl, fun _ => rfl, fun _ => rfl, fun _ => rfl, fun _ => rfl, rfl⟩

theorem keepsTimes_value {name : String} {set : Bytes → ParseState → Except Failure ParseState}
    (hmem : (name, set) ∈ valueOptions) {value : Bytes} {st st' : ParseState}
    (h : set value st = .ok st') : KeepsTimes (bytes name) st st' := by
  simp only [valueOptions, List.mem_cons, Prod.mk.injEq, List.not_mem_nil, or_false] at hmem
  rcases hmem with ⟨rfl, rfl⟩ | ⟨rfl, rfl⟩ | ⟨rfl, rfl⟩ | ⟨rfl, rfl⟩ | ⟨rfl, rfl⟩ | ⟨rfl, rfl⟩ |
    ⟨rfl, rfl⟩ | ⟨rfl, rfl⟩ | ⟨rfl, rfl⟩ | ⟨rfl, rfl⟩ | ⟨rfl, rfl⟩ | ⟨rfl, rfl⟩ | ⟨rfl, rfl⟩ |
    ⟨rfl, rfl⟩ | ⟨rfl, rfl⟩ | ⟨rfl, rfl⟩ | ⟨rfl, rfl⟩ | ⟨rfl, rfl⟩ | ⟨rfl, rfl⟩ | ⟨rfl, rfl⟩ |
    ⟨rfl, rfl⟩
  all_goals
    obtain ⟨x, -, rfl⟩ := assign_ok h
    constructor
    all_goals first | exact fun _ => rfl | exact fun hne => absurd rfl hne | rfl

theorem generation_of_parsed {rest : List Bytes} {st st' : ParseState} (h : Parsed rest st st') :
    st'.options.config.timestampGeneration = st.options.config.timestampGeneration := by
  induction h with
  | done st => rfl
  | flag hset _ ih => rw [ih, (keepsTimes_flag hset []).generation]
  | value hoption hset _ ih =>
    obtain ⟨other, rfl, hmem⟩ := exists_of_valueOption hoption
    rw [ih, (keepsTimes_value hmem hset).generation]

theorem setBy_offsetMinutes : SetBy "--offset-minutes" ParseState.offsetMinutes fun value minutes =>
    ∃ x, parseSigned value (bytes "--offset-minutes") = .ok x ∧ minutes = x where
  flag h := (keepsTimes_flag h []).offsetMinutes (by decide)
  set hset h := by
    obtain rfl : setOffsetMinutes = _ := Option.some.inj hset
    obtain ⟨minutes, hread, rfl⟩ := assign_ok h
    exact ⟨minutes, hread, rfl⟩
  other hmem hne _ _ _ h := (keepsTimes_value hmem h).offsetMinutes hne

theorem setBy_rangeStart : SetBy "--from" ParseState.rangeStart fun value date =>
    ∃ day, parseDate value (bytes "--from") = .ok day ∧ date = some day where
  flag h := (keepsTimes_flag h []).rangeStart (by decide)
  set hset h := by
    obtain rfl : setFrom = _ := Option.some.inj hset
    obtain ⟨day, hread, rfl⟩ := assign_ok h
    exact ⟨day, hread, rfl⟩
  other hmem hne _ _ _ h := (keepsTimes_value hmem h).rangeStart hne

theorem setBy_rangeEnd : SetBy "--to" ParseState.rangeEnd fun value date =>
    ∃ day, parseDate value (bytes "--to") = .ok day ∧ date = some day where
  flag h := (keepsTimes_flag h []).rangeEnd (by decide)
  set hset h := by
    obtain rfl : setTo = _ := Option.some.inj hset
    obtain ⟨day, hread, rfl⟩ := assign_ok h
    exact ⟨day, hread, rfl⟩
  other hmem hne _ _ _ h := (keepsTimes_value hmem h).rangeEnd hne

theorem setBy_duration : SetBy "--duration" (fun st => st.options.duration) fun value duration =>
    ∃ seconds : ℕ, readDuration value = .ok seconds ∧ duration = seconds where
  flag h := (keepsTimes_flag h []).duration (by decide)
  set hset h := by
    obtain rfl : setDuration = _ := Option.some.inj hset
    obtain ⟨seconds, hread, rfl⟩ := assign_ok h
    exact ⟨seconds, hread, rfl⟩
  other hmem hne _ _ _ h := (keepsTimes_value hmem h).duration hne

theorem setBy_statusInterval : SetBy "--status-interval" (fun st => st.options.statusInterval)
    fun value interval =>
      ∃ seconds : ℕ, readStatusInterval value = .ok seconds ∧ interval = seconds * 1000 where
  flag h := (keepsTimes_flag h []).statusInterval (by decide)
  set hset h := by
    obtain rfl : setStatusInterval = _ := Option.some.inj hset
    obtain ⟨seconds, hread, rfl⟩ := assign_ok h
    exact ⟨seconds, hread, rfl⟩
  other hmem hne _ _ _ h := (keepsTimes_value hmem h).statusInterval hne

theorem setBy_fileMaxDuration : SetBy "--file-max-duration"
    (fun st => st.options.config.endpoint.fileMaxDuration) fun value duration =>
      ∃ seconds : ℕ, readFileMaxDuration value = .ok seconds ∧ duration = seconds * 1000 where
  flag h := (keepsTimes_flag h []).fileMaxDuration (by decide)
  set hset h := by
    obtain rfl : setFileMaxDuration = _ := Option.some.inj hset
    obtain ⟨seconds, hread, rfl⟩ := assign_ok h
    exact ⟨seconds, hread, rfl⟩
  other hmem hne _ _ _ h := (keepsTimes_value hmem h).fileMaxDuration hne

def settingsOf : List Bytes → List (Bytes × Bytes)
  | [] => []
  | first :: rest =>
    if lowercase first ∈ [bytes "--help", bytes "-h", bytes "help"] then [] else settings rest

/-- The value given last for the option, read. -/
def requested {α : Type} (name : String) (read : Bytes → Except Failure α)
    (arguments : List Bytes) : Option α :=
  (lastValue (bytes name) (settingsOf arguments)).bind fun value => (read value).toOption

def requestedOffset : List Bytes → Option ℤ :=
  requested "--offset-minutes" fun value => parseSigned value (bytes "--offset-minutes")

def requestedFrom : List Bytes → Option ℤ :=
  requested "--from" fun value => parseDate value (bytes "--from")

def requestedTo : List Bytes → Option ℤ :=
  requested "--to" fun value => parseDate value (bytes "--to")

def requestedDuration : List Bytes → Option ℕ := requested "--duration" readDuration

def requestedStatusInterval : List Bytes → Option ℕ :=
  requested "--status-interval" readStatusInterval

def requestedFileMaxDuration : List Bytes → Option ℕ :=
  requested "--file-max-duration" readFileMaxDuration

theorem exists_parsed {arguments : List Bytes} {options : CliOptions}
    (h : parseArguments arguments = .ok options) : ∃ rest command st,
      settingsOf arguments = settings rest ∧
      Parsed rest { options := { command := command } } st ∧ finish st = .ok options := by
  have hdefault : finish {} = .ok {} := by decide
  unfold parseArguments at h
  split at h
  · cases h
    exact ⟨[], .help, {}, rfl, .done _, hdefault⟩
  · rename_i first rest
    dsimp only at h
    rw [settingsOf]
    split_ifs at h ⊢ with hhelp
    · cases h
      exact ⟨[], .help, {}, rfl, .done _, hdefault⟩
    · cases hcommand : parseCommand (lowercase first) with
      | error failure =>
        rw [hcommand] at h
        cases h
      | ok command =>
        cases hoptions : parseOptions rest { options := { command := command } } with
        | error failure =>
          simp only [bind, Except.bind, hcommand, hoptions] at h
          cases h
        | ok st =>
          simp only [bind, Except.bind, hcommand, hoptions] at h
          exact ⟨rest, command, st, rfl, parsed_of_parseOptions hoptions, h⟩

theorem finish_cases {st : ParseState} {options : CliOptions} (h : finish st = .ok options) :
    (∃ start stop, st.rangeStart = some start ∧ st.rangeEnd = some stop ∧
      setRange st.options start stop = .ok options) ∨
    (st.rangeStart = none ∧ st.rangeEnd = none ∧
      setOffset st.options st.offsetMinutes = .ok options) := by
  unfold finish at h
  simp only [bind, Except.bind] at h
  split at h
  · cases h
  split at h
  · cases h
  split at h
  · rename_i start stop hstart hstop
    exact .inl ⟨start, stop, hstart, hstop, h⟩
  · rename_i hstart hstop
    exact .inr ⟨hstart, hstop, h⟩
  · cases h

theorem SetBy.eq_requested {α β : Type} {name : String} {part : ParseState → β}
    {read : Bytes → Except Failure α} {kept : α → β}
    (h : SetBy name part fun value x => ∃ y, read value = .ok y ∧ x = kept y)
    {arguments rest : List Bytes} {st st' : ParseState}
    (hsettings : settingsOf arguments = settings rest) (hparsed : Parsed rest st st') :
    part st' = ((requested name read arguments).map kept).getD (part st) := by
  have hlast := h.last hparsed
  rw [requested, hsettings]
  cases hvalue : lastValue (bytes name) (settings rest) with
  | none =>
    rw [hvalue] at hlast
    exact hlast
  | some value =>
    rw [hvalue] at hlast
    obtain ⟨y, hread, hpart⟩ := hlast
    rw [Option.bind_some, hread, hpart]
    rfl

/-- The offset that the arguments ask for, as it is split. -/
def splitOffset (minutes : ℤ) : TimeOffset where
  negative := minutes < 0
  days := (minutes.natAbs / minutesPerDay : ℕ)
  hours := (minutes.natAbs % minutesPerDay / 60 : ℕ)
  minutes := (minutes.natAbs % 60 : ℕ)

/-- How accepted options follow from the values given last. -/
structure AcceptedTimes (arguments : List Bytes) (options : CliOptions) : Prop where
  duration : options.duration = ((requestedDuration arguments).getD 0 : ℕ)
  statusInterval : options.statusInterval =
    ((requestedStatusInterval arguments).getD 1 : ℕ) * 1000
  fileMaxDuration : options.config.endpoint.fileMaxDuration =
    ((requestedFileMaxDuration arguments).getD 0 : ℕ) * 1000
  generation :
    (∃ start stop, requestedFrom arguments = some start ∧ requestedTo arguments = some stop ∧
      start ≤ stop ∧ options.config.timestampGeneration =
        { mode := .range
          range := { start := start * 86400, stop := (stop + 1) * 86400 - 1 } }) ∨
    (requestedFrom arguments = none ∧ requestedTo arguments = none ∧
      ((requestedOffset arguments).getD 0).natAbs / minutesPerDay ≤ 2 ^ 31 - 1 ∧
      options.config.timestampGeneration =
        { offset := splitOffset ((requestedOffset arguments).getD 0) })

theorem setRange_ok {options options' : CliOptions} {start stop : ℤ}
    (h : setRange options start stop = .ok options') : start ≤ stop ∧ options' = { options with
      config.timestampGeneration.mode := .range
      config.timestampGeneration.range :=
        { start := start * 86400, stop := (stop + 1) * 86400 - 1 } } := by
  unfold setRange at h
  split_ifs at h with hle
  · cases h
  · exact ⟨not_lt.mp hle, (Except.ok.inj h).symm⟩

theorem setOffset_ok {options options' : CliOptions} {minutes : ℤ}
    (h : setOffset options minutes = .ok options') :
    minutes.natAbs / minutesPerDay ≤ 2 ^ 31 - 1 ∧ options' =
      { options with config.timestampGeneration.offset := splitOffset minutes } := by
  unfold setOffset at h
  dsimp only at h
  split_ifs at h with hle
  · cases h
  · exact ⟨not_lt.mp hle, (Except.ok.inj h).symm⟩

/-- The checks after the loop only settle the generation of timestamps. -/
theorem finish_ok {st : ParseState} {options : CliOptions} (h : finish st = .ok options)
    (hgeneration : st.options.config.timestampGeneration = {}) :
    ∃ generation, options = { st.options with config.timestampGeneration := generation } ∧
      ((∃ start stop, st.rangeStart = some start ∧ st.rangeEnd = some stop ∧ start ≤ stop ∧
        generation =
          { mode := .range
            range := { start := start * 86400, stop := (stop + 1) * 86400 - 1 } }) ∨
      (st.rangeStart = none ∧ st.rangeEnd = none ∧
        st.offsetMinutes.natAbs / minutesPerDay ≤ 2 ^ 31 - 1 ∧
        generation = { offset := splitOffset st.offsetMinutes })) := by
  rcases finish_cases h with ⟨start, stop, hstart, hstop, h⟩ | ⟨hstart, hstop, h⟩
  · obtain ⟨hle, rfl⟩ := setRange_ok h
    exact ⟨_, rfl, .inl ⟨start, stop, hstart, hstop, hle, by rw [hgeneration]⟩⟩
  · obtain ⟨hle, rfl⟩ := setOffset_ok h
    exact ⟨_, rfl, .inr ⟨hstart, hstop, hle, by rw [hgeneration]⟩⟩

theorem acceptedTimes {arguments : List Bytes} {options : CliOptions}
    (h : parseArguments arguments = .ok options) : AcceptedTimes arguments options := by
  obtain ⟨rest, command, st, hsettings, hparsed, hfinish⟩ := exists_parsed h
  obtain ⟨generation, rfl, hcases⟩ := finish_ok hfinish (generation_of_parsed hparsed)
  have hoffset : st.offsetMinutes = (requestedOffset arguments).getD 0 := by
    have hset : st.offsetMinutes = ((requestedOffset arguments).map id).getD 0 :=
      setBy_offsetMinutes.eq_requested hsettings hparsed
    rwa [Option.map_id] at hset
  have hfrom : st.rangeStart = requestedFrom arguments := by
    rw [setBy_rangeStart.eq_requested hsettings hparsed, requestedFrom]
    cases requested "--from" (fun value => parseDate value (bytes "--from")) arguments <;> rfl
  have hto : st.rangeEnd = requestedTo arguments := by
    rw [setBy_rangeEnd.eq_requested hsettings hparsed, requestedTo]
    cases requested "--to" (fun value => parseDate value (bytes "--to")) arguments <;> rfl
  rw [hoffset, hfrom, hto] at hcases
  refine ⟨?_, ?_, ?_, hcases⟩
  · rw [requestedDuration, setBy_duration.eq_requested hsettings hparsed]
    cases requested "--duration" readDuration arguments <;> rfl
  · rw [requestedStatusInterval, setBy_statusInterval.eq_requested hsettings hparsed]
    cases requested "--status-interval" readStatusInterval arguments <;> rfl
  · rw [requestedFileMaxDuration, setBy_fileMaxDuration.eq_requested hsettings hparsed]
    cases requested "--file-max-duration" readFileMaxDuration arguments <;> rfl

theorem exists_accepted {arguments : List Bytes}
    (h : (parseArguments arguments).toOption.isSome = true) :
    ∃ options, parseArguments arguments = .ok options := by
  cases hparse : parseArguments arguments with
  | error failure =>
    rw [hparse] at h
    cases h
  | ok options => exact ⟨options, rfl⟩

end CliApp
end Presentation
end LogGenerator
