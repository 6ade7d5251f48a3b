import LogGenerator.Application.ImportedTexts
import LogGenerator.Presentation.CatalogFile

/-!
# The catalog on the disk

The loader's jobs on files, with the services that do them. The window over the list of
entries is what the window over the bytes refines: whatever fails on the way, the file can
be read, and its entries are those of the list.
-/

namespace LogGenerator
namespace Presentation

open Ascii Domain Application Infrastructure
open JsonLogCatalog (SaveIo TokensNamed itemJson rootJson)

section Named

variable {item : LogTemplate} {items : List LogTemplate}

theorem tokensNamed_tokenize (h : TokensNamed item) :
    TokensNamed (LogRenderer.tokenizeTemplate item) := by
  unfold TokensNamed
  rw [tokenizeTemplate_values, List.forall_mem_map]
  exact h

theorem tokensNamed_map (h : ∀ item ∈ items, TokensNamed item) :
    ∀ item ∈ items.map LogRenderer.tokenizeTemplate, TokensNamed item := by
  rw [List.forall_mem_map]
  exact fun item hitem => tokensNamed_tokenize (h item hitem)

theorem tokensNamed_importSamples {baseName sourceName : Bytes}
    {analyses : ℕ → Except Failure LogTemplateAnalysis} {index : ℕ} {samples : List Bytes}
    {imported : List LogCatalogService.TokenizedLogTemplate}
    (h : SampleLogImportService.importSamples baseName sourceName analyses index items samples =
      .ok imported) : ∀ tokenized ∈ imported, TokensNamed tokenized.item := by
  induction samples generalizing index items imported with
  | nil =>
    cases h
    apply List.forall_mem_nil
  | cons sample samples ih =>
    unfold SampleLogImportService.importSamples at h
    obtain ⟨id, -, h⟩ := exists_of_bind_ok h
    obtain ⟨first, hfirst, h⟩ := exists_of_bind_ok h
    obtain ⟨rest, hrest, h⟩ := exists_of_bind_ok h
    cases h
    rw [List.forall_mem_cons]
    refine ⟨?_, ih hrest⟩
    unfold LogCatalogService.tokenize at hfirst
    cases hanalysis : analyses index with
    | error failure =>
      rw [hanalysis] at hfirst
      cases hfirst
    | ok analysis =>
      rw [hanalysis] at hfirst
      cases hfirst
      exact tokensNamed_tokenize (List.forall_mem_nil _)

theorem tokensNamed_importFile {file : Bytes} {loaded : Except Failure (List Bytes)}
    {analyses : ℕ → Except Failure LogTemplateAnalysis}
    {imported : List LogCatalogService.TokenizedLogTemplate}
    (h : SampleLogImportService.importFile file loaded analyses items = .ok imported) :
    ∀ tokenized ∈ imported, TokensNamed tokenized.item := by
  unfold SampleLogImportService.importFile at h
  obtain ⟨samples, -, h⟩ := exists_of_bind_ok h
  by_cases hne : samples = []
  · rw [if_pos hne] at h
    cases h
  · rw [if_neg hne] at h
    exact tokensNamed_importSamples h

end Named

/-- The items that a job is given. -/
def CatalogJob.items : CatalogJob → List LogTemplate
  | .load => []
  | .save items | .importFile _ items => items

namespace AppState

/-- Wherever the window, its threads and the file keep an item, the item's tokens have names. -/
structure Named (s : AppState) : Prop where
  views : ∀ item ∈ s.views.items, TokensNamed item
  file : ∀ item ∈ s.file, TokensNamed item
  editor : ∀ item, s.editor.tokenizedItem = some item → TokensNamed item
  jobs : ∀ job, s.loader.pc = .work job → ∀ item ∈ job.items, TokensNamed item
  results : ∀ result, s.loader.Holds result → ∀ item ∈ result.items, TokensNamed item
  asked : ∀ r, s.tokenizer.Asks r → TokensNamed r.item
  tokenized : ∀ r, s.tokenizer.Holds r → TokensNamed r.tokenized.item

variable {s t : AppState}

theorem Named.request (h : s.Named) {job : CatalogJob}
    (hjob : ∀ item ∈ job.items, TokensNamed item) : (s.request job).Named where
  views := by simpa using h.views
  file := by
    unfold AppState.request
    split_ifs
    all_goals exact h.file
  editor := by simpa using h.editor
  jobs := by
    unfold AppState.request
    split_ifs
    · exact h.jobs
    · rintro other hother
      cases hother
      exact hjob
  results result hresult := h.results result (holds_request hresult)
  asked := by simpa using h.asked
  tokenized := by simpa using h.tokenized

/-- A step that keeps the items where they are. -/
theorem Named.same (h : s.Named) (hviews : t.views.items = s.views.items) (hfile : t.file = s.file)
    (heditor : t.editor.tokenizedItem = s.editor.tokenizedItem) (hpc : t.loader.pc = s.loader.pc)
    (hresult : t.loader.result = s.loader.result) (htokenizer : t.tokenizer.pc = s.tokenizer.pc)
    (hasked : t.tokenizer.request = s.tokenizer.request)
    (htokenized : t.tokenizer.result = s.tokenizer.result) : t.Named where
  views := by rw [hviews]; exact h.views
  file := by rw [hfile]; exact h.file
  editor := by rw [heditor]; exact h.editor
  jobs := by rw [hpc]; exact h.jobs
  results result hholds := by
    unfold CatalogLoader.Holds at hholds
    rw [hpc, hresult] at hholds
    exact h.results result hholds
  asked r hr := by
    unfold EditorTokenizer.Asks at hr
    rw [htokenizer, hasked] at hr
    exact h.asked r hr
  tokenized r hr := by
    unfold EditorTokenizer.Holds at hr
    rw [htokenizer, htokenized] at hr
    exact h.tokenized r hr

theorem Named.withViews (h : s.Named) {v : CatalogViews} {made : List LogTemplate}
    (hv : ∀ item ∈ v.items, TokensNamed item) :
    ({ s with views := v, made := made } : AppState).Named :=
  ⟨hv, h.file, h.editor, h.jobs, h.results, h.asked, h.tokenized⟩

theorem Named.requestCatalogSave (h : s.Named) : s.requestCatalogSave.Named :=
  h.request h.views

theorem Named.saveCatalogEditor (h : s.Named) : s.saveCatalogEditor.Named := by
  unfold AppState.saveCatalogEditor
  cases hitem : s.editor.tokenizedItem with
  | none => exact h
  | some tokenized =>
    -- the tokens of a test case are those of the tokenized item
    have hnamed : TokensNamed tokenized := h.editor tokenized hitem
    simp only
    by_cases hempty : s.editor.name = [] ∨ s.editor.sample = []
    · rw [if_pos hempty]
      exact h
    · rw [if_neg hempty]
      cases s.editor.isNew with
      | true =>
        rw [if_pos rfl]
        cases LogCatalogService.nextId s.views.items with
        | error failure => exact h.same rfl rfl rfl rfl rfl rfl rfl rfl
        | ok id =>
          apply Named.requestCatalogSave
          apply h.withViews
          intro item hmem
          rw [CatalogViews.pushItem, CatalogViews.rebuildFilter_items] at hmem
          rcases List.mem_append.mp hmem with hmem | hmem
          · exact h.views item hmem
          · rw [List.mem_singleton] at hmem
            rw [hmem]
            exact hnamed
      | false =>
        rw [if_neg Bool.false_ne_true]
        apply Named.requestCatalogSave
        apply h.withViews
        intro item hmem
        rw [CatalogViews.replaceItem, CatalogViews.rebuildFilter_items] at hmem
        split_ifs at hmem
        · rcases List.mem_or_eq_of_mem_set hmem with hmem | heq
          · exact h.views item hmem
          · rw [heq]
            exact hnamed
        · exact h.views item hmem

theorem Named.deleteSelectedCatalogItem (h : s.Named) : s.deleteSelectedCatalogItem.Named := by
  unfold AppState.deleteSelectedCatalogItem
  split_ifs
  · exact h
  · apply Named.requestCatalogSave
    apply h.withViews
    intro item hmem
    rw [CatalogViews.eraseItem, CatalogViews.rebuildFilter_items] at hmem
    exact h.views item (List.mem_of_mem_eraseIdx hmem)

theorem Named.nextStep (h : s.Named) : s.nextStep.Named := by
  unfold AppState.nextStep
  cases s.ui with
  | applyResult =>
    simp only
    split_ifs
    · exact h.same rfl rfl rfl rfl rfl rfl rfl rfl
    · exact h.same rfl rfl rfl rfl rfl rfl rfl rfl
  | takeResult =>
    refine ⟨?_, h.file, h.editor, h.jobs, ?_, h.asked, h.tokenized⟩
    · cases hresult : s.loader.result with
      | none => exact h.views
      | some result =>
        obtain ⟨hnew, hold⟩ := applyCatalogResult_items result s.views
        by_cases hreplaces : result.Replaces
        · simp only [hnew hreplaces]
          exact h.results result (.inl hresult)
        · simp only [hold hreplaces]
          exact h.views
    · rintro result (hresult | hresult)
      · cases hresult
      · exact h.results result (.inr hresult)
  | applyTokenization =>
    simp only
    split_ifs
    · exact h.same rfl rfl rfl rfl rfl rfl rfl rfl
    · exact h.same rfl rfl rfl rfl rfl rfl rfl rfl
  | takeTokenization =>
    refine ⟨h.views, h.file, ?_, h.jobs, h.results, h.asked, ?_⟩
    · cases hresult : s.tokenizer.result with
      | none => exact h.editor
      | some result =>
        intro item hitem
        simp only [Editor.applyResult] at hitem
        split_ifs at hitem with hother herror
        · exact h.editor item hitem
        · exact h.editor item hitem
        · cases hitem
          exact h.tokenized result (.inl hresult)
    · rintro result (hresult | hresult)
      · cases hresult
      · exact h.tokenized result (.inr hresult)
  | window | queueTokenization | storeTokenizing | dialogs =>
    exact h.same rfl rfl rfl rfl rfl rfl rfl rfl

theorem tokensNamed_edited (h : s.Named) : TokensNamed (s.editor.edited s.views.items) := by
  unfold Editor.edited
  split
  · next item _ hitem => exact h.views item (List.mem_of_getElem? hitem)
  · apply List.forall_mem_nil

/-- A step that opens an editor or marks its text as changed. -/
theorem Named.unanswered (h : s.Named) {e : Editor} (he : e.tokenizedItem = none) :
    ({ s with editor := e } : AppState).Named := by
  refine ⟨h.views, h.file, ?_, h.jobs, h.results, h.asked, h.tokenized⟩
  intro item hitem
  rw [he] at hitem
  cases hitem

theorem Named.openDialog (h : s.Named) (dialog : Dialog) : (s.openDialog dialog).Named :=
  h.same rfl rfl rfl rfl rfl rfl rfl rfl

theorem Named.closeDialog (h : s.Named) : s.closeDialog.Named :=
  h.same rfl rfl rfl rfl rfl rfl rfl rfl

theorem Named.uiStep {windows : Bool} {action : UiAction} (h : s.Named)
    (hstep : s.uiStep windows action = some t) : t.Named := by
  cases action with
  | next =>
    obtain ⟨-, ⟨⟩⟩ := Option.ite_none_right_eq_some.mp hstep
    exact h.nextStep
  | reload =>
    obtain ⟨-, ⟨⟩⟩ := Option.ite_none_right_eq_some.mp hstep
    exact h.request (List.forall_mem_nil _)
  | addItem =>
    obtain ⟨-, ⟨⟩⟩ := Option.ite_none_right_eq_some.mp hstep
    apply Named.openDialog
    exact h.unanswered rfl
  | importCsv file =>
    obtain ⟨-, ⟨⟩⟩ := Option.ite_none_right_eq_some.mp hstep
    split_ifs
    · exact h.request h.views
    · exact h.openDialog _
  | editItem =>
    rw [AppState.uiStep] at hstep
    cases hitem : s.views.items[s.views.visibleCatalogIndex]? with
    | none => simp [hitem] at hstep
    | some item =>
      simp only [hitem] at hstep
      obtain ⟨-, ⟨⟩⟩ := Option.ite_none_right_eq_some.mp hstep
      apply Named.openDialog
      exact h.unanswered rfl
  | queueTokenization =>
    obtain ⟨-, ⟨⟩⟩ := Option.ite_none_right_eq_some.mp hstep
    refine ⟨h.views, h.file, h.editor, h.jobs, h.results, ?_, h.tokenized⟩
    rintro r (hr | hr)
    · cases hr
      exact tokensNamed_edited h
    · exact h.asked r (.inr hr)
  | typeSample sample =>
    obtain ⟨-, ⟨⟩⟩ := Option.ite_none_right_eq_some.mp hstep
    exact h.unanswered rfl
  | saveEditor =>
    obtain ⟨-, ⟨⟩⟩ := Option.ite_none_right_eq_some.mp hstep
    exact h.saveCatalogEditor.closeDialog
  | confirmDelete =>
    obtain ⟨-, ⟨⟩⟩ := Option.ite_none_right_eq_some.mp hstep
    exact h.deleteSelectedCatalogItem.closeDialog
  | confirmImport file =>
    obtain ⟨-, ⟨⟩⟩ := Option.ite_none_right_eq_some.mp hstep
    apply Named.closeDialog
    exact h.request h.views
  | deleteItem | search | select | rotateFiltered | typeName | cancel =>
    obtain ⟨-, ⟨⟩⟩ := Option.ite_none_right_eq_some.mp hstep
    exact h.same rfl rfl rfl rfl rfl rfl rfl rfl

/-- The loader thread outside a job. -/
theorem Named.withLoader (h : s.Named) {loader : CatalogLoader} {file made : List LogTemplate}
    (hfile : ∀ item ∈ file, TokensNamed item) (hpc : ∀ job, loader.pc ≠ .work job)
    (hresults : ∀ result, loader.Holds result → ∀ item ∈ result.items, TokensNamed item) :
    ({ s with loader := loader, file := file, made := made } : AppState).Named :=
  ⟨h.views, hfile, h.editor, fun job hjob => absurd hjob (hpc job), hresults, h.asked, h.tokenized⟩

/-- What a job leaves behind has names when what it is given and what it loads have. -/
theorem run_named {answers : LoaderAnswers} {job : CatalogJob}
    (hitems : ∀ item ∈ job.items, TokensNamed item)
    (hloaded : ∀ items, answers.loaded = .ok items → ∀ item ∈ items, TokensNamed item) :
    (∀ item ∈ (job.run answers).result.items, TokensNamed item) ∧
      ∀ written, (job.run answers).written = some written →
        ∀ item ∈ written, TokensNamed item := by
  cases job with
  | load =>
    rw [CatalogJob.run]
    cases hanswer : answers.loaded with
    | error failure => exact ⟨List.forall_mem_nil _, fun written hwritten => by cases hwritten⟩
    | ok items =>
      simp only
      rw [(describeItems_frame _ _ _ _).1]
      exact ⟨hloaded items hanswer, fun written hwritten => by cases hwritten⟩
  | save items =>
    rw [CatalogJob.run]
    cases answers.saved with
    | error failure => exact ⟨List.forall_mem_nil _, fun written hwritten => by cases hwritten⟩
    | ok _ =>
      refine ⟨List.forall_mem_nil _, fun written hwritten => ?_⟩
      cases hwritten
      exact tokensNamed_map hitems
  | importFile file items =>
    rw [CatalogJob.run]
    cases himported : SampleLogImportService.importFile file answers.samples answers.tokenized
        items with
    | error failure => exact ⟨hitems, fun written hwritten => by cases hwritten⟩
    | ok tokenized =>
      have hall : ∀ item ∈ items ++ tokenized.map LogCatalogService.TokenizedLogTemplate.item,
          TokensNamed item := by
        rw [List.forall_mem_append, List.forall_mem_map]
        exact ⟨hitems, tokensNamed_importFile himported⟩
      cases answers.saved with
      | error failure => exact ⟨hall, fun written hwritten => by cases hwritten⟩
      | ok _ =>
        simp only
        refine ⟨?_, fun written hwritten => ?_⟩
        · split_ifs
          · rw [(describeItems_frame _ _ _ _).1]
            exact hall
          · rw [(describeItems_frame _ _ _ _).1]
            exact hall
        · cases hwritten
          exact tokensNamed_map hall

theorem Named.loaderStep {answers : LoaderAnswers} (h : s.Named)
    (hloaded : ∀ items, answers.loaded = .ok items → ∀ item ∈ items, TokensNamed item)
    (hstep : s.loaderStep answers = some t) : t.Named := by
  rw [AppState.loaderStep] at hstep
  split at hstep
  · cases hstep
  · next job hpc =>
    cases hstep
    obtain ⟨hresult, hwritten⟩ := run_named (h.jobs job hpc) hloaded
    apply h.withLoader _ (fun _ => LoaderPc.noConfusion)
    · rintro result (hold | hnew)
      · exact h.results result (.inl hold)
      · cases hnew
        exact hresult
    · cases hdone : (job.run answers).written with
      | none => exact h.file
      | some written => exact hwritten written hdone
  · next made hpc =>
    cases hstep
    apply h.withLoader h.file (fun _ => LoaderPc.noConfusion)
    rintro result (hresult | hresult)
    · cases hresult
      exact h.results made (.inr hpc)
    · cases hresult
  · cases hstep
    apply h.withLoader h.file (fun _ => LoaderPc.noConfusion)
    rintro result (hresult | hresult)
    · exact h.results result (.inl hresult)
    · cases hresult
  · cases hstep
    apply h.withLoader h.file (fun _ => LoaderPc.noConfusion)
    rintro result (hresult | hresult)
    · exact h.results result (.inl hresult)
    · cases hresult

/-- Answers for the loader that load items with names keep all of them named. -/
def LoadsNamed : AppAction → Prop
  | .loader answers => ∀ items, answers.loaded = .ok items → ∀ item ∈ items, TokensNamed item
  | _ => True

@[simp] theorem request_file (job : CatalogJob) (s : AppState) :
    (s.request job).file = s.file := by
  unfold request
  split_ifs <;> rfl

@[simp] theorem saveCatalogEditor_file (s : AppState) :
    s.saveCatalogEditor.file = s.file := by
  unfold AppState.saveCatalogEditor
  cases s.editor.tokenizedItem with
  | none => rfl
  | some tokenized =>
    simp only
    split_ifs
    · rfl
    · cases LogCatalogService.nextId s.views.items with
      | error failure => rfl
      | ok id => exact request_file _ _
    · exact request_file _ _
    · exact request_file _ _

@[simp] theorem deleteSelectedCatalogItem_file (s : AppState) :
    s.deleteSelectedCatalogItem.file = s.file := by
  unfold AppState.deleteSelectedCatalogItem
  split_ifs
  · rfl
  · exact request_file _ _

@[simp] theorem nextStep_file (s : AppState) : s.nextStep.file = s.file := by
  unfold AppState.nextStep
  split
  case h_1 => split_ifs <;> rfl
  case h_4 => split_ifs <;> rfl
  all_goals rfl

theorem uiStep_file {windows : Bool} {action : UiAction} (h : s.uiStep windows action = some t) :
    t.file = s.file := by
  cases action with
  | next =>
    obtain ⟨-, ⟨⟩⟩ := Option.ite_none_right_eq_some.mp h
    exact nextStep_file s
  | reload =>
    obtain ⟨-, ⟨⟩⟩ := Option.ite_none_right_eq_some.mp h
    exact request_file _ _
  | importCsv file =>
    obtain ⟨-, ⟨⟩⟩ := Option.ite_none_right_eq_some.mp h
    split_ifs
    · exact request_file _ _
    · rfl
  | editItem =>
    rw [AppState.uiStep] at h
    cases hitem : s.views.items[s.views.visibleCatalogIndex]? with
    | none => simp [hitem] at h
    | some item =>
      simp only [hitem] at h
      obtain ⟨-, ⟨⟩⟩ := Option.ite_none_right_eq_some.mp h
      rfl
  | saveEditor =>
    obtain ⟨-, ⟨⟩⟩ := Option.ite_none_right_eq_some.mp h
    exact saveCatalogEditor_file s
  | confirmDelete =>
    obtain ⟨-, ⟨⟩⟩ := Option.ite_none_right_eq_some.mp h
    exact deleteSelectedCatalogItem_file s
  | confirmImport file =>
    obtain ⟨-, ⟨⟩⟩ := Option.ite_none_right_eq_some.mp h
    exact request_file _ _
  | addItem | deleteItem | search | select | rotateFiltered | queueTokenization | typeName
  | typeSample | cancel =>
    obtain ⟨-, ⟨⟩⟩ := Option.ite_none_right_eq_some.mp h
    rfl

theorem named_step {windows : Bool} {file : List LogTemplate} {action : AppAction} (h : s.Named)
    (hloaded : LoadsNamed action) (hstep : (catalogApp windows file).step s action = some t) :
    t.Named := by
  cases action with
  | ui action => exact h.uiStep hstep
  | loader answers => exact h.loaderStep hloaded hstep
  | tokenizer answer =>
    obtain ⟨tokenizer, htokenizer, rfl⟩ := Option.map_eq_some_iff.mp hstep
    obtain ⟨hasked, hholds⟩ := EditorTokenizer.step_cases htokenizer
    refine ⟨h.views, h.file, h.editor, h.jobs, h.results, fun r hr => h.asked r (hasked r hr), ?_⟩
    intro result hresult
    rcases hholds result hresult with hold | ⟨request, hpc, rfl⟩
    · exact h.tokenized result hold
    · cases answer with
      | error failure => apply List.forall_mem_nil
      | ok analysis => exact tokensNamed_tokenize (h.asked request (.inr hpc))

theorem named_initial (windows : Bool) {file : List LogTemplate}
    (hfile : ∀ item ∈ file, TokensNamed item) : (catalogApp windows file).initial.Named where
  views := List.forall_mem_nil _
  file := hfile
  editor item hitem := by cases hitem
  jobs job hjob := by
    cases hjob
    apply List.forall_mem_nil
  results := by
    rintro result (hresult | hresult)
    · cases hresult
    · cases hresult
  asked := by
    rintro r (hr | hr)
    · cases hr
    · cases hr
  tokenized := by
    rintro r (hr | hr)
    · cases hr
    · cases hr

end AppState

/-- What is answered to a job besides what the files hold: by the cache to `import_file`, to
`load` and `save` of the catalog service and to the loop behind them, and by the operating
system. -/
structure DiskAnswers where
  imported : ℕ → Except Failure LogTemplateAnalysis := fun _ => .ok {}
  tokenized : ℕ → Except Failure LogTemplateAnalysis := fun _ => .ok {}
  analyses : ℕ → Except Failure LogTemplateAnalysis := fun _ => .ok {}
  io : SaveIo := {}

/-- What the calls of a job return, and the files behind them. -/
def CatalogJob.perform (L : JsonLibrary) (catalog : Bytes) (answers : DiskAnswers)
    (files : Files) : CatalogJob → LoaderAnswers × Files
  | .load =>
    ({ loaded := LogCatalogService.load L catalog answers.tokenized files
       analyses := answers.analyses }, files)
  | .save items =>
    let saved := LogCatalogService.save L catalog items answers.tokenized answers.io files
    ({ saved := saved.1 }, saved.2)
  | .importFile file items =>
    let returned : LoaderAnswers :=
      { samples := CsvSampleLogSource.load file files
        tokenized := answers.imported
        analyses := answers.analyses }
    match SampleLogImportService.importFile file returned.samples returned.tokenized items with
    | .error _ => (returned, files)
    | .ok tokenized =>
      let all := items ++ tokenized.map LogCatalogService.TokenizedLogTemplate.item
      let saved := LogCatalogService.save L catalog all answers.tokenized answers.io files
      ({ returned with saved := saved.1 }, saved.2)

structure CatalogDisk where
  app : AppState
  files : Files

inductive DiskAction where
  | ui (action : UiAction)
  | loader (answers : DiskAnswers)
  | tokenizer (answer : Except Failure LogTemplateAnalysis)

namespace CatalogDisk

/-- The step of the window with the answers that the files give, and the files behind it. -/
def answered (L : JsonLibrary) (catalog : Bytes) (d : CatalogDisk) :
    DiskAction → AppAction × Files
  | .ui action => (.ui action, d.files)
  | .tokenizer answer => (.tokenizer answer, d.files)
  | .loader answers =>
    match d.app.loader.pc with
    | .work job =>
      let performed := job.perform L catalog answers d.files
      (.loader performed.1, performed.2)
    | _ => (.loader {}, d.files)

end CatalogDisk

/-- The window over the files, begun when the catalog file holds these items. -/
def catalogDisk (windows : Bool) (L : JsonLibrary) (catalog : Bytes) (files : Files)
    (file : List LogTemplate) : Machine CatalogDisk DiskAction where
  initial := ⟨(catalogApp windows file).initial, files⟩
  step d action :=
    let answered := d.answered L catalog action
    ((catalogApp windows file).step d.app answered.1).map fun app => ⟨app, answered.2⟩

section

variable {L : JsonLibrary} {catalog : Bytes} {answers : DiskAnswers} {files : Files}
  {file : List LogTemplate} {job : CatalogJob}

/-- Either the file is as it was, or it is what a `save` has written. -/
theorem load_behind_save {items : List LogTemplate} (answers : DiskAnswers)
    (hload : JsonLogCatalog.load L catalog files = .ok file)
    (hnamed : ∀ item ∈ items, TokensNamed item) :
    let saved := LogCatalogService.save L catalog items answers.tokenized answers.io files
    let written := items.map LogRenderer.tokenizeTemplate
    (∀ failure, saved.1 = .error failure → JsonLogCatalog.load L catalog saved.2 = .ok file) ∧
      (saved.1 = .ok () → L.LawfulAt (rootJson (written.map itemJson)) →
        JsonLogCatalog.load L catalog saved.2 = .ok written) := by
  intro saved written
  constructor
  · intro failure hfailure
    rw [JsonLogCatalog.load_congr (LogCatalogService.save_error (Prod.ext hfailure rfl)), hload]
  · intro hsaved hlaw
    have hwritten := LogCatalogService.save_ok (Prod.ext hsaved rfl)
    exact JsonLogCatalog.load_written hlaw (tokensNamed_map hnamed) hwritten

/-- The file holds what the job says it has written, and is as it was when the job has
written nothing. -/
theorem perform_stored (hload : JsonLogCatalog.load L catalog files = .ok file)
    (hnamed : ∀ item ∈ job.items, TokensNamed item)
    (hlaw : ∀ written, (job.run (job.perform L catalog answers files).1).written = some written →
      L.LawfulAt (rootJson (written.map itemJson))) :
    JsonLogCatalog.load L catalog (job.perform L catalog answers files).2 =
      .ok ((job.run (job.perform L catalog answers files).1).written.getD file) := by
  cases job with
  | load =>
    rw [CatalogJob.run]
    split
    · exact hload
    · exact hload
  | save items =>
    obtain ⟨hkept, hwritten⟩ := load_behind_save answers hload hnamed
    simp only [CatalogJob.perform, CatalogJob.run] at hlaw ⊢
    cases hsaved : (LogCatalogService.save L catalog items answers.tokenized answers.io
        files).1 with
    | error failure => exact hkept failure hsaved
    | ok _ =>
      rw [hsaved] at hlaw
      exact hwritten hsaved (hlaw _ rfl)
  | importFile path items =>
    simp only [CatalogJob.perform] at hlaw ⊢
    cases himported : SampleLogImportService.importFile path (CsvSampleLogSource.load path files)
        answers.imported items with
    | error failure =>
      simp only [CatalogJob.run, himported]
      exact hload
    | ok tokenized =>
      have hall : ∀ item ∈ items ++ tokenized.map LogCatalogService.TokenizedLogTemplate.item,
          TokensNamed item := by
        rw [List.forall_mem_append, List.forall_mem_map]
        exact ⟨hnamed, tokensNamed_importFile himported⟩
      obtain ⟨hkept, hwritten⟩ := load_behind_save answers hload hall
      simp only [CatalogJob.run, himported] at hlaw ⊢
      cases hsaved : (LogCatalogService.save L catalog
          (items ++ tokenized.map LogCatalogService.TokenizedLogTemplate.item) answers.tokenized
          answers.io files).1 with
      | error failure => exact hkept failure hsaved
      | ok _ =>
        simp only [hsaved] at hlaw
        exact hwritten hsaved (hlaw _ rfl)

theorem perform_loaded {items : List LogTemplate}
    (h : (job.perform L catalog answers files).1.loaded = .ok items) :
    ∀ item ∈ items, TokensNamed item := by
  cases job with
  | load =>
    obtain ⟨stored, hstored, rfl⟩ := LogCatalogService.load_ok h
    exact tokensNamed_map (JsonLogCatalog.load_named hstored)
  | save saved =>
    cases h
    apply List.forall_mem_nil
  | importFile path base =>
    have hempty : (CatalogJob.perform L catalog answers files (.importFile path base)).1.loaded =
        .ok [] := by
      rw [CatalogJob.perform]
      split
      · rfl
      · rfl
    rw [hempty] at h
    cases h
    apply List.forall_mem_nil

end

namespace CatalogDisk

variable {L : JsonLibrary} {catalog : Bytes} {windows : Bool} {d d' : CatalogDisk}
  {file : List LogTemplate} {files : Files} {action : DiskAction}

/-- The answers that a job of the step gets. -/
def Answering (L : JsonLibrary) (catalog : Bytes) (d : CatalogDisk) (action : DiskAction)
    (job : CatalogJob) (answers : LoaderAnswers) : Prop :=
  d.app.loader.pc = .work job ∧ (d.answered L catalog action).1 = .loader answers

/-- The library writes and reads back what the step writes to the file. -/
def Lawful (L : JsonLibrary) (catalog : Bytes) (d : CatalogDisk) (action : DiskAction) : Prop :=
  ∀ job answers, d.Answering L catalog action job answers →
    ∀ written, (job.run answers).written = some written →
      L.LawfulAt (rootJson (written.map itemJson))

/-- The file holds the items of the list, and the list's items can be read back. -/
structure Stored (L : JsonLibrary) (catalog : Bytes) (d : CatalogDisk) : Prop where
  file : JsonLogCatalog.load L catalog d.files = .ok d.app.file
  named : d.app.Named

theorem loadsNamed_answered (d : CatalogDisk) (action : DiskAction) :
    AppState.LoadsNamed (d.answered L catalog action).1 := by
  cases action with
  | ui action => trivial
  | tokenizer answer => trivial
  | loader answers =>
    unfold CatalogDisk.answered
    cases d.app.loader.pc with
    | work job => exact fun items hitems => perform_loaded hitems
    | idle | publish | setReady | clearLoading =>
      intro items hitems
      cases hitems
      apply List.forall_mem_nil

theorem stored_step (h : d.Stored L catalog) (hlaw : d.Lawful L catalog action)
    (hstep : (catalogDisk windows L catalog files file).step d action = some d') :
    d'.Stored L catalog := by
  obtain ⟨app, happ, rfl⟩ := Option.map_eq_some_iff.mp hstep
  refine ⟨?_, AppState.named_step h.named (loadsNamed_answered d action) happ⟩
  cases action with
  | ui action =>
    simp only [AppState.uiStep_file happ]
    exact h.file
  | tokenizer answer =>
    obtain ⟨tokenizer, -, rfl⟩ := Option.map_eq_some_iff.mp happ
    exact h.file
  | loader answers =>
    unfold Lawful Answering at hlaw
    unfold CatalogDisk.answered at happ hlaw ⊢
    cases hpc : d.app.loader.pc with
    | idle =>
      simp [catalogApp, AppState.loaderStep, hpc] at happ
    | work job =>
      simp only [hpc, catalogApp, AppState.loaderStep] at happ hlaw ⊢
      cases happ
      exact perform_stored h.file (h.named.jobs job hpc) (hlaw job _ ⟨rfl, rfl⟩)
    | publish result =>
      simp only [hpc, catalogApp, AppState.loaderStep] at happ ⊢
      cases happ
      exact h.file
    | setReady =>
      simp only [hpc, catalogApp, AppState.loaderStep] at happ ⊢
      cases happ
      exact h.file
    | clearLoading =>
      simp only [hpc, catalogApp, AppState.loaderStep] at happ ⊢
      cases happ
      exact h.file

theorem stored_initial (hload : JsonLogCatalog.load L catalog files = .ok file) :
    (catalogDisk windows L catalog files file).initial.Stored L catalog :=
  ⟨hload, AppState.named_initial windows (JsonLogCatalog.load_named hload)⟩

/-- The calls of a job return. -/
structure Returns (job : CatalogJob) (answers : LoaderAnswers) : Prop where
  loaded : ∃ items, answers.loaded = .ok items
  saved : answers.saved = .ok ()
  imported : ∀ path items, job = .importFile path items → ∃ tokenized,
    SampleLogImportService.importFile path answers.samples answers.tokenized items = .ok tokenized
  error : (job.run answers).result.error = []

/-- A step whose job returns and whose import finds nothing waiting, where dialogs are modal. -/
structure FollowingStep (windows : Bool) (L : JsonLibrary) (catalog : Bytes) (d : CatalogDisk)
    (action : DiskAction) : Prop where
  lawful : d.Lawful L catalog action
  returns : ∀ job answers, d.Answering L catalog action job answers → Returns job answers
  shown : d.app.ImportsShown windows (d.answered L catalog action).1
  modal : d.app.Modal (d.answered L catalog action).1

theorem followingStep_app (h : d.Stored L catalog)
    (hok : FollowingStep windows L catalog d action) :
    AppState.FollowingStep windows d.app (d.answered L catalog action).1 := by
  refine ⟨?_, hok.shown, hok.modal⟩
  unfold AppState.JobsSucceed
  cases hanswered : (d.answered L catalog action).1 with
  | ui action => trivial
  | tokenizer answer => trivial
  | loader answers =>
    intro job hjob
    have hreturns := hok.returns job answers ⟨hjob, hanswered⟩
    refine ⟨?_, hreturns.saved, hreturns.imported, hreturns.error⟩
    rintro rfl
    -- what is loaded are the items of the list
    cases action with
    | ui action => cases hanswered
    | tokenizer answer => cases hanswered
    | loader asked =>
      rw [CatalogDisk.answered, hjob] at hanswered
      cases hanswered
      obtain ⟨items, hitems⟩ := hreturns.loaded
      obtain ⟨stored, hstored, rfl⟩ := LogCatalogService.load_ok hitems
      rw [h.file] at hstored
      cases hstored
      exact hitems

end CatalogDisk

section

variable {L : JsonLibrary} {catalog : Bytes} {windows : Bool} {d : CatalogDisk}
  {file : List LogTemplate} {files : Files}

/-- Whatever the user does, in whatever order the threads run and whatever fails in between,
the catalog file can be read, and it holds what the window over the list says it does. -/
theorem catalogDisk_reads (hload : JsonLogCatalog.load L catalog files = .ok file)
    (h : (catalogDisk windows L catalog files file).Steps (CatalogDisk.Lawful L catalog)
      (catalogDisk windows L catalog files file).initial d) :
    JsonLogCatalog.load L catalog d.files = .ok d.app.file ∧
      (catalogApp windows file).Reachable d.app := by
  obtain ⟨app, hreachable, happ, hstored⟩ : ∃ app, (catalogApp windows file).Reachable app ∧
      d.app = app ∧ d.Stored L catalog := by
    apply h.simulates (R := fun d app => d.app = app ∧ d.Stored L catalog)
      ⟨rfl, CatalogDisk.stored_initial hload⟩
    rintro d action d' app ⟨rfl, hd⟩ hlaw hstep
    obtain ⟨app, happ, heq⟩ := Option.map_eq_some_iff.mp hstep
    refine ⟨app, .single _ trivial happ, ?_, CatalogDisk.stored_step hd hlaw hstep⟩
    rw [← heq]
  rw [← happ] at hreachable
  exact ⟨hstored.file, hreachable⟩

/-- A step without a job. -/
theorem followingStep_of_noJob {action : DiskAction}
    (h : unhurried d.app (d.answered L catalog action).1 = true) :
    CatalogDisk.FollowingStep windows L catalog d action := by
  have hnone (job : CatalogJob) (answers : LoaderAnswers) :
      ¬ d.Answering L catalog action job answers := by
    rintro ⟨hpc, hanswered⟩
    simp [hanswered, unhurried, hpc] at h
  have hfollowing : AppState.FollowingStep windows d.app (d.answered L catalog action).1 :=
    followingStep_of_unhurried h
  exact ⟨fun job answers hjob => absurd hjob (hnone job answers),
    fun job answers hjob => absurd hjob (hnone job answers), hfollowing.shown, hfollowing.modal⟩

theorem answered_job {asked : DiskAnswers} {job : CatalogJob} {answers : LoaderAnswers}
    {files' : Files} (hpc : d.app.loader.pc = .work job)
    (hperform : job.perform L catalog asked d.files = (answers, files')) :
    d.answered L catalog (.loader asked) = (.loader answers, files') := by
  simp only [CatalogDisk.answered, hpc, hperform]

theorem eq_of_answering {asked : DiskAnswers} {job job' : CatalogJob}
    {answers answers' : LoaderAnswers} {files' : Files} (hpc : d.app.loader.pc = .work job)
    (hperform : job.perform L catalog asked d.files = (answers, files'))
    (h : d.Answering L catalog (.loader asked) job' answers') :
    job' = job ∧ answers' = answers := by
  obtain ⟨hpc', hanswered⟩ := h
  rw [hpc] at hpc'
  rw [answered_job hpc hperform] at hanswered
  cases hpc'
  cases hanswered
  exact ⟨rfl, rfl⟩

/-- A job whose calls return, as a step. -/
theorem steps_job {asked : DiskAnswers} {job : CatalogJob} {answers : LoaderAnswers}
    {app : AppState} {files' : Files} (hpc : d.app.loader.pc = .work job)
    (hperform : job.perform L catalog asked d.files = (answers, files'))
    (hreturns : CatalogDisk.Returns job answers)
    (hlaw : ∀ written, (job.run answers).written = some written →
      L.LawfulAt (rootJson (written.map itemJson)))
    (happ : d.app.loaderStep answers = some app) :
    (catalogDisk windows L catalog files file).Steps (CatalogDisk.FollowingStep windows L catalog)
      d ⟨app, files'⟩ := by
  have hanswered := answered_job hpc hperform
  apply Machine.Steps.single (.loader asked)
  · refine ⟨?_, ?_, ?_, ?_⟩
    · intro job' other h
      obtain ⟨rfl, rfl⟩ := eq_of_answering hpc hperform h
      exact hlaw
    · intro job' other h
      obtain ⟨rfl, rfl⟩ := eq_of_answering hpc hperform h
      exact hreturns
    · intro file hfile
      rw [hanswered] at hfile
      cases hfile
    · rw [hanswered]
      trivial
  · simp only [catalogDisk, catalogApp, hanswered, happ, Option.map_some]

/-- A job that writes nothing, as a step. -/
theorem steps_refused {asked : DiskAnswers} {job : CatalogJob} {answers : LoaderAnswers}
    {app : AppState} {files' : Files} (hpc : d.app.loader.pc = .work job)
    (hperform : job.perform L catalog asked d.files = (answers, files'))
    (hrefused : (job.run answers).written = none) (happ : d.app.loaderStep answers = some app) :
    (catalogDisk windows L catalog files file).Steps (CatalogDisk.Lawful L catalog)
      d ⟨app, files'⟩ := by
  apply Machine.Steps.single (.loader asked)
  · intro job' other h
    obtain ⟨rfl, rfl⟩ := eq_of_answering hpc hperform h
    rw [hrefused]
    intro written hwritten
    cases hwritten
  · simp only [catalogDisk, catalogApp, answered_job hpc hperform, happ, Option.map_some]

def emptyText : Bytes := bytes "\x7b\n  \"logs\": [],\n  \"schema_version\": 1\n\x7d"

/-- The library as it acts on the catalog of `koreanItem` and on the empty one. -/
def deletingLibrary : JsonLibrary where
  dump _ := .ok emptyText
  parse input :=
    if input = emptyText ++ [lf] then .ok (rootJson [])
    else (JsonLogCatalog.writtenAs (rootJson ([koreanItem].map
      itemJson)) koreanText).parse input

theorem lawfulAt_deletingLibrary : deletingLibrary.LawfulAt (rootJson []) where
  dump_iff _ :=
    ⟨fun _ => (JsonLogCatalog.validUtf8_rootJson []).mpr (List.forall_mem_nil _),
      fun _ => ⟨emptyText, rfl⟩⟩
  parse_dump written _ hwritten := by
    cases hwritten
    simp only [deletingLibrary, if_true]

def koreanFiles : Files :=
  Function.update (fun _ => none) (bytes "logs.json") (some (koreanText ++ [lf]))

theorem load_koreanFiles : JsonLogCatalog.load deletingLibrary (bytes "logs.json") koreanFiles =
    .ok [koreanItem] := by
  have hne : ¬ koreanText ++ [lf] = emptyText ++ [lf] := by decide
  unfold JsonLogCatalog.load koreanFiles deletingLibrary
  rw [Function.update_self]
  simp only [if_neg hne]
  unfold JsonLogCatalog.writtenAs
  simp only [if_true]
  rfl

theorem perform_load_koreanFiles :
    CatalogJob.load.perform deletingLibrary (bytes "logs.json") {} koreanFiles =
      ({ loaded := .ok [koreanItem] }, koreanFiles) := by
  have hids : LogCatalogService.validateIds [] [koreanItem] = .ok () := by rfl
  have htokenized : LogCatalogService.tokenizeItems (fun _ => .ok {}) 0 [koreanItem] =
      .ok [koreanItem] := by
    rw [LogCatalogService.tokenizeItems_answered (fun _ _ _ => ⟨{}, rfl⟩), List.map_singleton,
      tokenizeTemplate_koreanItem]
  rw [CatalogJob.perform, LogCatalogService.load, load_koreanFiles]
  simp only [bind, Except.bind, hids, htokenized]

theorem perform_save_nil (files : Files) : ∃ files',
    (CatalogJob.save []).perform deletingLibrary (bytes "logs.json") {} files = ({}, files') := by
  exact ⟨_, rfl⟩

/-- The item is shown. -/
def untilListed : List DiskAction := List.replicate 3 (.loader {}) ++ [UiAction.next, .next].map .ui

/-- It is deleted. -/
def untilDeleted : List DiskAction :=
  [UiAction.deleteItem, .next, .next, .next, .next, .next, .next, .next, .next,
    .confirmDelete].map .ui

/-- The loader behind its job, and the frame that takes the result. -/
def untilTaken : List DiskAction :=
  List.replicate 3 (.loader {}) ++ [UiAction.next, .next, .next].map .ui

/-- The window with the catalog. -/
def listedApp : AppState :=
  { views :=
      { items := [koreanItem]
        searchNames := [catalogSearchText koreanItem (LogCatalogService.privacySearchTerms {})]
        previews := [samplePreview koreanItem.sample]
        analyses := [{}]
        filteredIndices := [0] }
    ui := .window
    file := [koreanItem]
    made := [koreanItem] }

/-- The window when the dialog has been confirmed. -/
def deletedApp : AppState :=
  { ui := .dialogs, loader := { pc := .work (.save []) }, file := [koreanItem] }

theorem steps_unhurried {d' : CatalogDisk} (actions : List DiskAction)
    (hexec : (catalogDisk windows L catalog files file).execWhile
      (fun d action => unhurried d.app (d.answered L catalog action).1) d actions = some d') :
    (catalogDisk windows L catalog files file).Steps (CatalogDisk.FollowingStep windows L catalog)
      d d' :=
  .of_execWhile (fun _ _ _ => followingStep_of_noJob) hexec

def koreanDisk : Machine CatalogDisk DiskAction :=
  catalogDisk true deletingLibrary (bytes "logs.json") koreanFiles [koreanItem]

/-- The item is loaded and shown, and the user confirms that it is deleted. -/
theorem deletingRun :
    koreanDisk.Steps (CatalogDisk.FollowingStep true deletingLibrary (bytes "logs.json"))
      koreanDisk.initial ⟨deletedApp, koreanFiles⟩ := by
  have hload : koreanDisk.Steps _ koreanDisk.initial _ := steps_job rfl perform_load_koreanFiles
    ⟨⟨_, rfl⟩, rfl, (fun _ _ h => by cases h), rfl⟩ (fun _ h => by cases h) rfl
  have hlisted : koreanDisk.Steps _ koreanDisk.initial ⟨listedApp, koreanFiles⟩ :=
    hload.trans (steps_unhurried untilListed rfl)
  exact hlisted.trans (steps_unhurried untilDeleted rfl)

/-- The system refuses to replace the file. -/
def refusingIo : JsonLogCatalog.SaveIo := { move := fun _ => some 13 }

theorem perform_save_refused (files : Files) : ∃ files',
    (CatalogJob.save []).perform deletingLibrary (bytes "logs.json") { io := refusingIo } files =
      ({ saved := .error (JsonLogCatalog.catalogError (bytes "logs.json")
        (bytes "atomic replacement failed (13)")) }, files') := by
  exact ⟨_, rfl⟩

/-- The window has given up the item, and the file still has it. -/
theorem catalogDisk_reads_refused : ∃ d : CatalogDisk, d.app.views.items = [] ∧
    d.app.file = [koreanItem] ∧
    JsonLogCatalog.load deletingLibrary (bytes "logs.json") d.files = .ok d.app.file := by
  have hconfirmed := deletingRun.mono fun _ _ h => h.lawful
  obtain ⟨files', hperform⟩ := perform_save_refused koreanFiles
  have hrefused := hconfirmed.trans (steps_refused rfl hperform rfl rfl)
  have htaken := hrefused.trans
    ((steps_unhurried untilTaken rfl).mono fun _ _ h => h.lawful)
  exact ⟨_, rfl, rfl, (catalogDisk_reads load_koreanFiles htaken).1⟩

/-- As long as the jobs return, the bytes of the file are those of a catalog with the
identifiers that the window shows, whenever no loader runs and no result waits. -/
theorem catalogDisk_inStep (hload : JsonLogCatalog.load L catalog files = .ok file)
    (h : (catalogDisk windows L catalog files file).Steps
      (CatalogDisk.FollowingStep windows L catalog)
      (catalogDisk windows L catalog files file).initial d) (hquiet : d.app.Quiet) :
    ∃ items, JsonLogCatalog.load L catalog d.files = .ok items ∧
      items.map LogTemplate.id = d.app.views.items.map LogTemplate.id ∧
      Whole d.app.made items ∧ Whole d.app.made d.app.views.items := by
  have hboth : d.Stored L catalog ∧ d.app.Following := by
    apply h.invariant ⟨CatalogDisk.stored_initial hload, AppState.following_initial windows file⟩
    rintro d action d' ⟨hstored, hfollowing⟩ hok hstep
    refine ⟨CatalogDisk.stored_step hstored hok.lawful hstep, ?_⟩
    obtain ⟨app, happ, rfl⟩ := Option.map_eq_some_iff.mp hstep
    exact AppState.following_step hfollowing (CatalogDisk.followingStep_app hstored hok) happ
  obtain ⟨hstored, hfollowing⟩ := hboth
  have hinStep := hfollowing.inStep hquiet
  exact ⟨d.app.file, hstored.file, hinStep.ids.symm, hinStep.file, hinStep.items⟩

theorem catalogDisk_inStep_deleted : ∃ d : CatalogDisk, d.app.views.items = [] ∧
    ∃ items, JsonLogCatalog.load deletingLibrary (bytes "logs.json") d.files = .ok items ∧
      items.map LogTemplate.id = d.app.views.items.map LogTemplate.id := by
  obtain ⟨files', hperform⟩ := perform_save_nil koreanFiles
  have hsaved := deletingRun.trans (steps_job rfl hperform
    ⟨⟨_, rfl⟩, rfl, (fun _ _ h => by cases h), rfl⟩
    (fun _ h => by cases h; exact lawfulAt_deletingLibrary) rfl)
  have htaken := hsaved.trans (steps_unhurried untilTaken rfl)
  obtain ⟨items, hload, hids, -⟩ := catalogDisk_inStep load_koreanFiles htaken ⟨rfl, rfl⟩
  exact ⟨_, rfl, items, hload, hids⟩

end

end Presentation
end LogGenerator
