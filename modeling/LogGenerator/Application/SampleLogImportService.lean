import LogGenerator.Application.CacheWarming
import LogGenerator.Application.CompileSegments
import LogGenerator.Application.SanitizeStages
import LogGenerator.Foundation.FromChars
import LogGenerator.Infrastructure.CsvSampleLogSource

/-!
# Importing samples

`LogCatalogService` hands out identifiers by their value and checks them as strings;
`import_file` gives each sample of a file the next one.
-/

namespace LogGenerator
namespace Application

open Ascii Domain

namespace LogCatalogService

/-- `validate_ids`, with the identifiers already seen. -/
def validateIds : List Bytes → List LogTemplate → Except Failure Unit
  | _, [] => .ok ()
  | identifiers, item :: items =>
    if !validSampleId item.id then
      .error (.exception (bytes "Sample id must contain only digits: '" ++ item.id ++ bytes "'"))
    else if item.id ∈ identifiers then
      .error (.exception (bytes "Duplicate sample id: '" ++ item.id ++ bytes "'"))
    else validateIds (item.id :: identifiers) items

def largestSampleId : ℕ := 2 ^ 64 - 1

/-- The loop of `next_id`. -/
def maximumId : ℕ → List LogTemplate → Except Failure ℕ
  | maximum, [] => .ok maximum
  | maximum, item :: items =>
    match fromChars largestSampleId item.id with
    | some (value, []) => maximumId (max maximum value) items
    | _ => .error (.exception (bytes "Sample id is too large: '" ++ item.id ++ bytes "'"))

def paddedId (value : ℕ) : Bytes :=
  let result := decimal value
  List.replicate (4 - result.length) (digit 0) ++ result

def nextId (items : List LogTemplate) : Except Failure Bytes := do
  validateIds [] items
  let maximum ← maximumId 0 items
  if maximum = largestSampleId then
    .error (.exception (bytes "No numeric sample id remains available"))
  return paddedId (maximum + 1)

structure TokenizedLogTemplate where
  item : LogTemplate
  analysis : LogTemplateAnalysis

/-- `tokenize`; `analysis` is what the entry of the preparation cache says, or what its
compilation throws. -/
def tokenize (analysis : Except Failure LogTemplateAnalysis) (item : LogTemplate) :
    Except Failure TokenizedLogTemplate :=
  analysis.map fun analysis => ⟨LogRenderer.tokenizeTemplate item, analysis⟩

end LogCatalogService

namespace SampleLogImportService

open LogCatalogService

/-- The loop of `import_file`; `analyses` answers the calls of `tokenize`. -/
def importSamples (baseName sourceName : Bytes) (analyses : ℕ → Except Failure LogTemplateAnalysis) :
    ℕ → List LogTemplate → List Bytes → Except Failure (List TokenizedLogTemplate)
  | _, _, [] => .ok []
  | index, assignedItems, sample :: samples => do
    let id ← nextId assignedItems
    let item : LogTemplate :=
      { id := id
        name := baseName ++ bytes " #" ++ decimal (index + 1)
        sample := sample
        source := sourceName }
    let tokenized ← tokenize (analyses index) item
    let imported ← importSamples baseName sourceName analyses (index + 1)
      (assignedItems ++ [tokenized.item]) samples
    return tokenized :: imported

/-- `loaded` is what the source of samples gives for the file. -/
def importFile (file : Bytes) (loaded : Except Failure (List Bytes))
    (analyses : ℕ → Except Failure LogTemplateAnalysis) (existingItems : List LogTemplate) :
    Except Failure (List TokenizedLogTemplate) := do
  let samples ← loaded
  if samples = [] then
    .error (.exception (bytes "CSV 파일에 가져올 샘플 로그가 없습니다."))
  let stem := FilePath.stem file
  let baseName := if stem = [] then bytes "CSV 샘플 로그" else stem
  let sourceName := bytes "CSV 가져오기: " ++ FilePath.filename file
  importSamples baseName sourceName analyses 0 existingItems samples

end SampleLogImportService

namespace PrivacyAnonymizer

theorem replaceAsciiCaseInsensitive_ne_nil (needle : String) {replacement : String} {value : Bytes}
    (hreplacement : bytes replacement ≠ []) (h : value ≠ []) :
    replaceAsciiCaseInsensitive value needle replacement ≠ [] :=
  replaceIgnoringCase_ne_nil hreplacement h

theorem replaceKeepingGroup_ne_nil {input text : Bytes} (pattern : Regex) (htext : text ≠ [])
    (h : input ≠ []) : replaceKeepingGroup input pattern text ≠ [] := by
  apply splice_ne_nil h
  rw [List.forall_mem_map]
  intro m _
  simp [htext]

theorem marker_ne_nil {kind : PrivacyTokenKind} (h : kind ≠ .none) : marker kind ≠ [] := by
  intro hnil
  have hlast := getLast_marker h
  rw [hnil] at hlast
  cases hlast

theorem replacePattern_ne_nil {input : Bytes} (pattern : Regex) {kind : PrivacyTokenKind}
    (hkind : kind ≠ .none) (h : input ≠ []) : replacePattern input pattern kind ≠ [] := by
  apply splice_ne_nil h
  rw [List.forall_mem_map]
  exact fun _ _ => marker_ne_nil hkind

theorem fieldEdits_ne_nil (input : Bytes) (fuel candidate : ℕ) :
    ∀ e ∈ fieldEdits input fuel candidate, e.text ≠ [] := by
  induction fuel generalizing candidate with
  | zero => exact List.forall_mem_nil _
  | succ fuel ih =>
    unfold fieldEdits
    split_ifs
    · exact List.forall_mem_nil _
    · exact ih _
    · split
      · exact ih _
      · exact List.forall_mem_nil _
      · intro e he
        rcases List.mem_append.mp he with he | he
        · unfold fieldEdit at he
          dsimp only at he
          split_ifs at he with hedit
          · rw [List.mem_singleton.mp he]
            exact marker_ne_nil hedit.1
          · cases he
        · exact ih _ e he

theorem sanitize_ne_nil {sample : Bytes} (h : sample ≠ []) : sanitize sample ≠ [] := by
  have hcompany : bytes "Your-Company" ≠ [] ∧ bytes "Your" ≠ [] ∧ bytes "company" ≠ [] ∧
      bytes "TestUser" ≠ [] := by decide
  obtain ⟨hcompany, hyour, hlower, huser⟩ := hcompany
  have hfields : ∀ {input : Bytes}, input ≠ [] → replaceSensitiveFields input ≠ [] :=
    fun h => splice_ne_nil h (fieldEdits_ne_nil _ _ _)
  have hescape : ∀ {input : Bytes}, input ≠ [] → escapeUnsupportedControls input ≠ [] := by
    intro input hinput
    obtain ⟨b, rest, rfl⟩ := List.exists_cons_of_ne_nil hinput
    unfold escapeUnsupportedControls controlEscape
    rw [List.flatMap_cons]
    split_ifs
    · exact List.cons_ne_nil _ _
    · exact List.cons_ne_nil _ _
  unfold sanitize
  apply hescape
  apply replaceKeepingGroup_ne_nil _ huser
  apply replacePattern_ne_nil _ (by decide)
  apply replacePattern_ne_nil _ (by decide)
  apply replacePattern_ne_nil _ (by decide)
  apply replacePattern_ne_nil _ (by decide)
  apply hfields
  apply replaceKeepingGroup_ne_nil _ (marker_ne_nil (by decide))
  apply replaceKeepingGroup_ne_nil _ (marker_ne_nil (by decide))
  apply replaceAsciiCaseInsensitive_ne_nil _ hlower
  apply replaceAsciiCaseInsensitive_ne_nil _ hyour
  apply replaceAsciiCaseInsensitive_ne_nil _ hcompany
  apply replaceAsciiCaseInsensitive_ne_nil _ hcompany
  exact replaceAsciiCaseInsensitive_ne_nil _ hcompany h

end PrivacyAnonymizer

theorem replaceCapture_ne_nil {input replacement : Bytes} (pattern : Regex)
    (hreplacement : replacement ≠ []) (h : input ≠ []) :
    replaceCapture input pattern replacement ≠ [] := by
  apply splice_ne_nil h
  intro e he
  obtain ⟨m, -, hm⟩ := List.mem_filterMap.mp he
  obtain ⟨bounds, -, rfl⟩ := Option.map_eq_some_iff.mp hm
  exact hreplacement

theorem tokenizeTimestamps_ne_nil {input : Bytes} (h : input ≠ []) :
    tokenizeTimestamps input ≠ [] := by
  apply splice_ne_nil h
  rw [List.forall_mem_map]
  intro c hc
  obtain ⟨-, -, token, hsegment, -⟩ := timestampFound hc
  simp only [timestampEdit, hsegment]
  split_ifs with hprefix
  · -- a part that begins with the prefix is longer than it is
    intro hnil
    rw [hnil] at hprefix
    exact absurd (List.isPrefixOf_iff_prefix.mp hprefix) (by decide)
  · exact List.append_ne_nil_of_right_ne_nil _ (by decide)

namespace LogRenderer

theorem tokenize_ne_nil {sample : Bytes} (h : sample ≠ []) : tokenize sample ≠ [] := by
  unfold tokenize
  apply tokenizeTimestamps_ne_nil
  apply replaceCapture_ne_nil _ (braced_ne_nil _)
  apply replaceCapture_ne_nil _ (braced_ne_nil _)
  apply replaceCapture_ne_nil _ (braced_ne_nil _)
  apply replaceCapture_ne_nil _ (braced_ne_nil _)
  exact PrivacyAnonymizer.sanitize_ne_nil h

@[simp] theorem tokenizeTemplate_id (item : LogTemplate) : (tokenizeTemplate item).id = item.id := by
  rw [tokenizeTemplate]

@[simp] theorem tokenizeTemplate_name (item : LogTemplate) :
    (tokenizeTemplate item).name = item.name := by
  rw [tokenizeTemplate]

@[simp] theorem tokenizeTemplate_sample (item : LogTemplate) :
    (tokenizeTemplate item).sample = tokenize item.sample := by
  rw [tokenizeTemplate]

end LogRenderer

namespace LogCatalogService

open Infrastructure.JsonLogCatalog (ValidItems)

variable {items : List LogTemplate} {item : LogTemplate} {seen : List Bytes}

theorem validSampleId_iff {value : Bytes} :
    validSampleId value = true ↔ value ≠ [] ∧ ∀ b ∈ value, isDigit b = true := by
  simp [validSampleId]

theorem validateIds_ok (hvalid : ∀ item ∈ items, validSampleId item.id = true)
    (hnodup : (items.map LogTemplate.id).Nodup) (hseen : ∀ item ∈ items, item.id ∉ seen) :
    validateIds seen items = .ok () := by
  induction items generalizing seen with
  | nil => rfl
  | cons item items ih =>
    rw [List.forall_mem_cons] at hvalid hseen
    rw [List.map_cons, List.nodup_cons] at hnodup
    rw [validateIds, hvalid.1, if_neg hseen.1]
    apply ih hvalid.2 hnodup.2
    intro other hother hmem
    rcases List.mem_cons.mp hmem with heq | hmem
    · exact hnodup.1 (heq ▸ List.mem_map_of_mem hother)
    · exact hseen.2 other hother hmem

/-- The largest value of an identifier, zero when there is none. -/
def largestId (items : List LogTemplate) : ℕ :=
  (items.map fun item => decimalValue item.id).foldr max 0

theorem largestId_cons (item : LogTemplate) (items : List LogTemplate) :
    largestId (item :: items) = max (decimalValue item.id) (largestId items) := rfl

theorem decimalValue_le_largestId (h : item ∈ items) : decimalValue item.id ≤ largestId items := by
  induction items with
  | nil => cases h
  | cons other items ih =>
    rw [largestId_cons]
    rcases List.mem_cons.mp h with rfl | h
    · exact le_max_left _ _
    · exact (ih h).trans (le_max_right _ _)

theorem largestId_append (items : List LogTemplate) (item : LogTemplate) :
    largestId (items ++ [item]) = max (largestId items) (decimalValue item.id) := by
  induction items with
  | nil => exact max_comm _ _
  | cons other items ih => rw [List.cons_append, largestId_cons, largestId_cons, ih, max_assoc]

theorem maximumId_ok {maximum : ℕ} (hvalid : ∀ item ∈ items, validSampleId item.id = true)
    (h : largestId items ≤ largestSampleId) :
    maximumId maximum items = .ok (max maximum (largestId items)) := by
  induction items generalizing maximum with
  | nil => rw [maximumId, largestId, List.map_nil, List.foldr_nil, Nat.max_zero]
  | cons item items ih =>
    rw [List.forall_mem_cons] at hvalid
    rw [largestId_cons, max_le_iff] at h
    obtain ⟨hne, hdigits⟩ := validSampleId_iff.mp hvalid.1
    rw [maximumId, fromChars_of_digits _ hne hdigits, if_neg (not_lt.mpr h.1)]
    rw [largestId_cons, ← max_assoc]
    exact ih hvalid.2 h.2

theorem maximumId_error {maximum : ℕ} (hvalid : ∀ item ∈ items, validSampleId item.id = true)
    (h : largestSampleId < largestId items) :
    ∃ failure, maximumId maximum items = .error failure := by
  induction items generalizing maximum with
  | nil => exact absurd h (Nat.not_lt_zero _)
  | cons item items ih =>
    rw [List.forall_mem_cons] at hvalid
    rw [largestId_cons, lt_max_iff] at h
    obtain ⟨hne, hdigits⟩ := validSampleId_iff.mp hvalid.1
    rw [maximumId, fromChars_of_digits _ hne hdigits]
    split_ifs with hlarge
    · exact ⟨_, rfl⟩
    · exact ih hvalid.2 (h.resolve_left hlarge)

theorem nextId_ok (h : ValidItems items) (hroom : largestId items < largestSampleId) :
    nextId items = .ok (paddedId (largestId items + 1)) := by
  have hvalid : ∀ item ∈ items, validSampleId item.id = true := fun item hi => (h.valid item hi).1
  rw [nextId, validateIds_ok hvalid h.nodup (fun _ _ => List.not_mem_nil),
    maximumId_ok hvalid hroom.le, Nat.zero_max]
  simp [bind, Except.bind, pure, Except.pure, hroom.ne]

theorem nextId_error (h : ValidItems items) (hroom : largestSampleId ≤ largestId items) :
    ∃ failure, nextId items = .error failure := by
  have hvalid : ∀ item ∈ items, validSampleId item.id = true := fun item hi => (h.valid item hi).1
  rw [nextId, validateIds_ok hvalid h.nodup (fun _ _ => List.not_mem_nil)]
  rcases hroom.eq_or_lt with heq | hlt
  · rw [maximumId_ok hvalid heq.ge, Nat.zero_max]
    simp [bind, Except.bind, heq]
  · obtain ⟨failure, hfailure⟩ : ∃ failure, maximumId 0 items = .error failure :=
      maximumId_error hvalid hlt
    rw [hfailure]
    exact ⟨failure, rfl⟩

theorem length_paddedId (value : ℕ) : 4 ≤ (paddedId value).length := by
  simp only [paddedId, List.length_append, List.length_replicate]
  omega

@[simp] theorem decimalValue_paddedId (value : ℕ) : decimalValue (paddedId value) = value := by
  rw [paddedId, decimalValue_zeros, decimalValue_decimal]

theorem validSampleId_paddedId (value : ℕ) : validSampleId (paddedId value) = true := by
  refine validSampleId_iff.mpr ⟨?_, fun b hb => ?_⟩
  · exact List.append_ne_nil_of_right_ne_nil _ (decimal_ne_nil value)
  · rcases List.mem_append.mp hb with hb | hb
    · rw [List.eq_of_mem_replicate hb]
      decide
    · exact decimal_isDigit value b hb

end LogCatalogService

namespace SampleLogImportService

open LogCatalogService
open Infrastructure
open JsonLogCatalog (ValidItems savedItems savedItems_iff)

variable {baseName sourceName : Bytes} {analyses : ℕ → Except Failure LogTemplateAnalysis}
  {index : ℕ} {items : List LogTemplate} {sample : Bytes} {samples : List Bytes}

/-- What `import_file` puts together for the sample at the index. -/
def importedItem (baseName sourceName : Bytes) (index : ℕ) (items : List LogTemplate)
    (sample : Bytes) : LogTemplate :=
  LogRenderer.tokenizeTemplate
    { id := paddedId (largestId items + 1)
      name := baseName ++ bytes " #" ++ decimal (index + 1)
      sample := sample
      source := sourceName }

@[simp] theorem importedItem_id (items : List LogTemplate) (sample : Bytes) :
    (importedItem baseName sourceName index items sample).id = paddedId (largestId items + 1) := by
  rw [importedItem, LogRenderer.tokenizeTemplate_id]

@[simp] theorem importedItem_sample (items : List LogTemplate) (sample : Bytes) :
    (importedItem baseName sourceName index items sample).sample = LogRenderer.tokenize sample := by
  rw [importedItem, LogRenderer.tokenizeTemplate_sample]

theorem importedItem_name (items : List LogTemplate) (sample : Bytes) :
    (importedItem baseName sourceName index items sample).name ≠ [] := by
  rw [importedItem, LogRenderer.tokenizeTemplate_name]
  exact List.append_ne_nil_of_right_ne_nil _ (decimal_ne_nil _)

theorem validItems_append (h : ValidItems items) (hsample : sample ≠ []) :
    ValidItems (items ++ [importedItem baseName sourceName index items sample]) := by
  have hfresh : paddedId (largestId items + 1) ∉ items.map LogTemplate.id := by
    intro hmem
    obtain ⟨item, hitem, heq⟩ := List.mem_map.mp hmem
    have hle := decimalValue_le_largestId hitem
    rw [heq, decimalValue_paddedId] at hle
    omega
  constructor
  · rw [List.forall_mem_append, List.forall_mem_singleton]
    rw [importedItem_id, importedItem_sample]
    exact ⟨h.valid, validSampleId_paddedId _, importedItem_name items sample,
      LogRenderer.tokenize_ne_nil hsample⟩
  · rw [List.map_append]
    refine List.nodup_append.mpr ⟨h.nodup, List.nodup_singleton _, fun id hid other hother => ?_⟩
    rw [List.map_singleton, List.mem_singleton] at hother
    rintro rfl
    rw [hother] at hid
    exact hfresh hid

theorem largestId_append_importedItem (items : List LogTemplate) (sample : Bytes) :
    largestId (items ++ [importedItem baseName sourceName index items sample]) =
      largestId items + 1 := by
  rw [largestId_append, importedItem_id, decimalValue_paddedId]
  exact max_eq_right (Nat.le_succ _)

theorem importSamples_cons {analysis : LogTemplateAnalysis} (h : ValidItems items)
    (hroom : largestId items < largestSampleId) (hanalysis : analyses index = .ok analysis) :
    importSamples baseName sourceName analyses index items (sample :: samples) =
      (importSamples baseName sourceName analyses (index + 1)
        (items ++ [importedItem baseName sourceName index items sample]) samples).map
          (⟨importedItem baseName sourceName index items sample, analysis⟩ :: ·) := by
  rw [importSamples, nextId_ok h hroom]
  simp only [tokenize, hanalysis, bind, Except.bind, Except.map, pure, Except.pure]
  rfl

/-- The items are numbered from the value given on, and their identifiers are padded. -/
structure Numbered (largest : ℕ) (samples : List Bytes) (imported : List LogTemplate) : Prop where
  tokenized : imported.map LogTemplate.sample = samples.map LogRenderer.tokenize
  values : (imported.map fun item => decimalValue item.id) =
    List.range' (largest + 1) samples.length
  padded : ∀ item ∈ imported, validSampleId item.id = true ∧ 4 ≤ item.id.length

theorem Numbered.cons {imported : List LogTemplate}
    (h : Numbered (largestId items + 1) samples imported) :
    Numbered (largestId items) (sample :: samples)
      (importedItem baseName sourceName index items sample :: imported) := by
  refine ⟨?_, ?_, ?_⟩
  · rw [List.map_cons, List.map_cons, h.tokenized, importedItem_sample]
  · rw [List.map_cons, h.values, List.length_cons, List.range'_succ, importedItem_id,
      decimalValue_paddedId]
  · rw [List.forall_mem_cons]
    exact ⟨⟨validSampleId_paddedId _, length_paddedId _⟩, h.padded⟩

/-- Every call of `tokenize` from the index on that the samples need is answered. -/
def Answered (analyses : ℕ → Except Failure LogTemplateAnalysis) (index count : ℕ) : Prop :=
  ∀ k, index ≤ k → k < index + count → ∃ analysis, analyses k = .ok analysis

theorem Answered.head {count : ℕ} (h : Answered analyses index (count + 1)) :
    ∃ analysis, analyses index = .ok analysis := h index le_rfl (by omega)

theorem Answered.tail {count : ℕ} (h : Answered analyses index (count + 1)) :
    Answered analyses (index + 1) count := fun k hle hlt => h k (by omega) (by omega)

theorem importSamples_ok (h : ValidItems items) (hsamples : ∀ sample ∈ samples, sample ≠ [])
    (hanalyses : Answered analyses index samples.length)
    (hroom : largestId items + samples.length ≤ largestSampleId) :
    ∃ imported, importSamples baseName sourceName analyses index items samples = .ok imported ∧
      Numbered (largestId items) samples (imported.map (·.item)) ∧
      ValidItems (items ++ imported.map (·.item)) := by
  induction samples generalizing index items with
  | nil => exact ⟨[], rfl, ⟨rfl, rfl, nofun⟩, by simpa using h⟩
  | cons sample samples ih =>
    rw [List.forall_mem_cons] at hsamples
    rw [List.length_cons] at hanalyses hroom
    obtain ⟨analysis, hanalysis⟩ := hanalyses.head
    have hvalid : ValidItems (items ++ [importedItem baseName sourceName index items sample]) :=
      validItems_append h hsamples.1
    have hlargest : largestId (items ++ [importedItem baseName sourceName index items sample]) =
        largestId items + 1 := largestId_append_importedItem items sample
    obtain ⟨imported, hok, hnumbered, hitems⟩ := ih hvalid hsamples.2 hanalyses.tail (by omega)
    rw [importSamples_cons h (by omega) hanalysis, hok]
    refine ⟨_, rfl, ?_, ?_⟩
    · rw [hlargest] at hnumbered
      exact hnumbered.cons
    · rwa [List.append_assoc] at hitems

/-- The value after the last one is reached before the samples are. -/
theorem importSamples_error (h : ValidItems items) (hne : samples ≠ [])
    (hsamples : ∀ sample ∈ samples, sample ≠ [])
    (hanalyses : Answered analyses index samples.length)
    (hroom : largestSampleId < largestId items + samples.length) :
    ∃ failure, importSamples baseName sourceName analyses index items samples =
      .error failure := by
  induction samples generalizing index items with
  | nil => exact absurd rfl hne
  | cons sample samples ih =>
    rw [List.forall_mem_cons] at hsamples
    rw [List.length_cons] at hanalyses hroom
    obtain ⟨analysis, hanalysis⟩ := hanalyses.head
    by_cases hlt : largestId items < largestSampleId
    · have hvalid : ValidItems (items ++ [importedItem baseName sourceName index items sample]) :=
        validItems_append h hsamples.1
      have hlargest : largestId (items ++ [importedItem baseName sourceName index items sample]) =
          largestId items + 1 := largestId_append_importedItem items sample
      have hrest : samples ≠ [] := by
        rintro rfl
        rw [List.length_nil] at hroom
        omega
      obtain ⟨failure, hfailure⟩ := ih hvalid hrest hsamples.2 hanalyses.tail (by omega)
      rw [importSamples_cons h hlt hanalysis, hfailure]
      exact ⟨failure, rfl⟩
    · obtain ⟨failure, hfailure⟩ := nextId_error h (not_lt.mp hlt)
      rw [importSamples, hfailure]
      exact ⟨failure, rfl⟩

theorem importFile_eq (file : Bytes) {samples : List Bytes} (hne : samples ≠ [])
    (analyses : ℕ → Except Failure LogTemplateAnalysis) (items : List LogTemplate) :
    ∃ baseName sourceName, importFile file (.ok samples) analyses items =
      importSamples baseName sourceName analyses 0 items samples := by
  unfold importFile
  simp only [bind, Except.bind, if_neg hne]
  exact ⟨_, _, rfl⟩

/-- `save` of the service and of the catalog accept the items. -/
def Saves (file : Bytes) (items : List LogTemplate) : Prop :=
  validateIds [] items = .ok () ∧
    ∃ logs, savedItems file [] (items.map LogRenderer.tokenizeTemplate) = .ok logs

theorem saves_of_validItems (file : Bytes) (h : ValidItems items) : Saves file items := by
  refine ⟨validateIds_ok (fun item hi => (h.valid item hi).1) h.nodup
    (fun _ _ => List.not_mem_nil), (savedItems_iff file []).mpr ⟨⟨?_, ?_⟩, ?_⟩⟩
  · rw [List.forall_mem_map]
    intro item hitem
    obtain ⟨hid, hname, hsample⟩ := h.valid item hitem
    rw [LogRenderer.tokenizeTemplate_id, LogRenderer.tokenizeTemplate_name,
      LogRenderer.tokenizeTemplate_sample]
    exact ⟨hid, hname, LogRenderer.tokenize_ne_nil hsample⟩
  · have hids : LogTemplate.id ∘ LogRenderer.tokenizeTemplate = LogTemplate.id :=
      funext LogRenderer.tokenizeTemplate_id
    rw [List.map_map, hids]
    exact h.nodup
  · exact fun _ _ => List.not_mem_nil

/-- An import extends a valid catalog by items that are numbered on from its largest value,
or fails when the values do not suffice. -/
theorem importFile_valid (file : Bytes) (files : Files) {samples : List Bytes}
    (hload : CsvSampleLogSource.load file files = .ok samples)
    {analyses : ℕ → Except Failure LogTemplateAnalysis}
    (hanalyses : Answered analyses 0 samples.length)
    {existing : List LogTemplate} (hexisting : ValidItems existing) :
    (largestId existing + samples.length < 2 ^ 64 →
      ∃ imported, importFile file (CsvSampleLogSource.load file files) analyses existing =
          .ok imported ∧
        Numbered (largestId existing) samples (imported.map (·.item)) ∧
        ValidItems (existing ++ imported.map (·.item)) ∧
        ∀ saved, Saves saved (existing ++ imported.map (·.item))) ∧
    (2 ^ 64 ≤ largestId existing + samples.length →
      ∃ failure, importFile file (CsvSampleLogSource.load file files) analyses existing =
        .error failure) := by
  obtain ⟨hne, hsamples⟩ := CsvSampleLogSource.load_ne_nil hload
  rw [hload]
  obtain ⟨baseName, sourceName, himport⟩ := importFile_eq file hne analyses existing
  rw [himport]
  constructor
  · intro hroom
    obtain ⟨imported, hok, hnumbered, hvalid⟩ :=
      importSamples_ok hexisting hsamples hanalyses (Nat.le_sub_one_of_lt hroom)
    exact ⟨imported, hok, hnumbered, hvalid, fun saved => saves_of_validItems saved hvalid⟩
  · intro hroom
    exact importSamples_error hexisting hne hsamples hanalyses
      (Nat.sub_one_lt_of_le (by decide) hroom)

/-- A catalog with one item, and a file with two samples below a header. -/
theorem importFile_valid_two :
    let file := bytes "a.csv"
    let files : Files := fun _ => some (bytes "sample\nfirst\nsecond")
    let existing : List LogTemplate :=
      [{ id := bytes "0007", name := bytes "old", sample := bytes "older" }]
    ∃ imported, importFile file (CsvSampleLogSource.load file files) (fun _ => .ok {}) existing =
        .ok imported ∧
      (imported.map fun tokenized => decimalValue tokenized.item.id) = [8, 9] := by
  intro file files existing
  have hload : CsvSampleLogSource.load file files = .ok [bytes "first", bytes "second"] := by
    decide
  have hexisting : ValidItems existing := ⟨by decide, by decide⟩
  have hroom : largestId existing + [bytes "first", bytes "second"].length < 2 ^ 64 := by decide
  obtain ⟨imported, hok, hnumbered, -⟩ :=
    (importFile_valid file files hload (fun k _ _ => ⟨{}, rfl⟩) hexisting).1 hroom
  refine ⟨imported, hok, ?_⟩
  have hvalues := hnumbered.values
  rw [List.map_map] at hvalues
  exact hvalues

end SampleLogImportService

end Application
end LogGenerator
