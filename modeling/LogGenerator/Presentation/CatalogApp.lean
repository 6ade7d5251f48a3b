import LogGenerator.Foundation.Machine
import LogGenerator.Presentation.CatalogEditor

/-!
# The catalog in the window

One machine for the frames of the window, the thread of the catalog loader and the thread
of the editor's tokenizer. A frame takes its steps in the order of `render`. That a dialog
is modal is what the window's library promises, not a guard of the program: `Modal` says it
of a step.
-/

namespace LogGenerator
namespace Presentation

open Ascii Domain Application

/-- Where the frame is. -/
inductive UiPc where
  | applyResult
  | takeResult
  | window
  | applyTokenization
  | takeTokenization
  | queueTokenization
  | storeTokenizing
  | dialogs
  deriving DecidableEq

inductive Dialog where
  | closed | editor | deleteItem | importFile
  deriving DecidableEq

structure AppState where
  views : CatalogViews := {}
  editor : Editor := {}
  dialog : Dialog := .closed
  /-- The dialog has been open since an earlier frame. -/
  dialogShown : Bool := false
  deleteIndex : ℕ := 0
  ui : UiPc := .applyResult
  /-- No exception has ended `run`. -/
  running : Bool := true
  loader : CatalogLoader := {}
  tokenizer : EditorTokenizer := {}
  /-- The entries of the catalog file. -/
  file : List LogTemplate := []
  /-- What the user's additions, edits, deletions and imports make of the catalog. -/
  made : List LogTemplate := []

inductive UiAction where
  /-- The frame goes on without the user. -/
  | next
  | reload
  | addItem
  | importCsv (file : Bytes)
  | editItem
  | deleteItem
  | search (query : Bytes)
  | select (index : ℕ)
  | rotateFiltered (rotate : Bool)
  /-- The pause after the last change of the text is over. -/
  | queueTokenization
  | typeName (name : Bytes)
  | typeSample (sample : Bytes)
  | saveEditor
  | confirmDelete
  | confirmImport (file : Bytes)
  | cancel

/-- The widget is one of the main window. -/
def UiAction.onWindow : UiAction → Bool
  | .reload | .addItem | .importCsv _ | .editItem | .deleteItem | .search _ | .select _
  | .rotateFiltered _ => true
  | _ => false

/-- The widget is one of a dialog. -/
def UiAction.onDialog : UiAction → Bool
  | .typeName _ | .typeSample _ | .saveEditor | .confirmDelete | .confirmImport _ | .cancel => true
  | _ => false

inductive AppAction where
  | ui (action : UiAction)
  | loader (answers : LoaderAnswers)
  | tokenizer (answer : Except Failure LogTemplateAnalysis)

namespace AppState

/-- `catalog_loading_` is set, and a thread with the job begins; a job that runs is left alone. -/
def request (job : CatalogJob) (s : AppState) : AppState :=
  if s.loader.loading then s else { s with loader := { s.loader with pc := .work job } }

def requestCatalogLoad (s : AppState) : AppState := s.request .load

def requestCatalogSave (s : AppState) : AppState := s.request (.save s.views.items)

def requestSampleLogImport (file : Bytes) (s : AppState) : AppState :=
  s.request (.importFile file s.views.items)

/-- The frame renders the main window. -/
def atWindow (s : AppState) : Bool := s.running && s.ui == .window

/-- The frame renders the dialog. -/
def atDialog (dialog : Dialog) (s : AppState) : Bool :=
  s.running && s.ui == .dialogs && s.dialog == dialog

def openDialog (dialog : Dialog) (s : AppState) : AppState :=
  { s with dialog := dialog, dialogShown := false }

def closeDialog (s : AppState) : AppState := { s with dialog := .closed, dialogShown := false }

/-- `save_catalog_editor`; what `next_id` throws ends `run`. -/
def saveCatalogEditor (s : AppState) : AppState :=
  match s.editor.tokenizedItem with
  | none => s
  | some tokenized =>
    if s.editor.name = [] ∨ s.editor.sample = [] then s
    else
      let item := { tokenized with name := s.editor.name }
      if s.editor.isNew then
        match LogCatalogService.nextId s.views.items with
        | .error _ => { s with running := false }
        | .ok id =>
          let item := { item with id := id, source := bytes "사용자 정의" }
          requestCatalogSave { s with
            views := s.views.pushItem item s.editor.analysis
            made := s.made ++ [item] }
      else
        requestCatalogSave { s with
          views := s.views.replaceItem s.editor.index item s.editor.analysis
          made := if s.editor.index < s.views.items.length then s.made.set s.editor.index item
            else s.made }

def deleteSelectedCatalogItem (s : AppState) : AppState :=
  if s.views.items.length ≤ s.deleteIndex then s
  else
    requestCatalogSave { s with
      views := s.views.eraseItem s.deleteIndex
      made := s.made.eraseIdx s.deleteIndex }

/-- The save button of the editor is enabled. -/
def saveEnabled (s : AppState) : Bool :=
  s.editor.name ≠ [] && s.editor.sample ≠ [] && !s.editor.analysisPending &&
    !s.tokenizer.tokenizing && s.editor.tokenizedItem.isSome && !s.loader.loading

/-- The frame's own steps. -/
def nextStep (s : AppState) : AppState :=
  match s.ui with
  | .applyResult =>
    if s.loader.ready then
      { s with loader := { s.loader with ready := false }, ui := .takeResult }
    else { s with ui := .window }
  | .takeResult =>
    { s with
      views := match s.loader.result with
        | none => s.views
        | some result => s.views.applyCatalogResult result
      loader := { s.loader with result := none }
      ui := .window }
  | .window => { s with ui := .applyTokenization }
  | .applyTokenization =>
    if s.tokenizer.ready then
      { s with tokenizer := { s.tokenizer with ready := false }, ui := .takeTokenization }
    else { s with ui := .queueTokenization }
  | .takeTokenization =>
    { s with
      editor := match s.tokenizer.result with
        | none => s.editor
        | some result => s.editor.applyResult result
      tokenizer := { s.tokenizer with result := none }
      ui := .queueTokenization }
  | .queueTokenization => { s with ui := .dialogs }
  | .storeTokenizing =>
    { s with tokenizer := { s.tokenizer with tokenizing := true }, ui := .dialogs }
  | .dialogs => { s with ui := .applyResult, dialogShown := s.dialog != .closed }

/-- A step of the window. On Windows the file dialog returns within the frame, elsewhere the
path is typed into a dialog. -/
def uiStep (windows : Bool) (s : AppState) : UiAction → Option AppState
  | .next => if s.running then some s.nextStep else none
  | .reload => if s.atWindow && !s.loader.loading then some s.requestCatalogLoad else none
  | .addItem =>
    if s.atWindow && !s.loader.loading then
      some ({ s with editor := s.editor.openNew s.views.items }.openDialog .editor)
    else none
  | .importCsv file =>
    if s.atWindow && !s.loader.loading then
      some (if windows then s.requestSampleLogImport file else s.openDialog .importFile)
    else none
  | .editItem =>
    -- the item is read at the visible index; the list is not empty
    match s.views.items[s.views.visibleCatalogIndex]? with
    | none => none
    | some item =>
      if s.atWindow && !s.loader.loading then
        some ({ s with
          editor := s.editor.openSelected s.views.visibleCatalogIndex item }.openDialog .editor)
      else none
  | .deleteItem =>
    if s.atWindow && !s.loader.loading && s.views.items ≠ [] then
      some ({ s with deleteIndex := s.views.visibleCatalogIndex }.openDialog .deleteItem)
    else none
  | .search query =>
    if s.atWindow then some { s with views := { s.views with search := query }.rebuildFilter }
    else none
  | .select index =>
    if s.atWindow && !s.views.rotateFiltered && index ∈ s.views.filteredIndices then
      some { s with views := { s.views with selectedLog := index } }
    else none
  | .rotateFiltered rotate =>
    if s.atWindow then some { s with views := { s.views with rotateFiltered := rotate } } else none
  | .queueTokenization =>
    if s.running && s.ui == .queueTokenization && s.editor.analysisPending &&
        s.editor.sample ≠ [] then
      some { s with
        tokenizer := { s.tokenizer with request := some (s.editor.request s.views.items) }
        editor := { s.editor with analysisPending := false }
        ui := .storeTokenizing }
    else none
  | .typeName name =>
    if s.atDialog .editor then some { s with editor := { s.editor with name := name } } else none
  | .typeSample sample =>
    if s.atDialog .editor then
      some { s with editor := { s.editor with sample := sample }.markSampleChanged }
    else none
  | .saveEditor =>
    if s.atDialog .editor && s.saveEnabled then some s.saveCatalogEditor.closeDialog else none
  | .confirmDelete =>
    if s.atDialog .deleteItem then some s.deleteSelectedCatalogItem.closeDialog else none
  | .confirmImport file =>
    if s.atDialog .importFile && file ≠ [] && !s.loader.loading then
      some (s.requestSampleLogImport file).closeDialog
    else none
  | .cancel =>
    if s.running && s.ui == .dialogs && s.dialog != .closed then some s.closeDialog else none

/-- A step of the loader thread. -/
def loaderStep (answers : LoaderAnswers) (s : AppState) : Option AppState :=
  match s.loader.pc with
  | .idle => none
  | .work job =>
    let done := job.run answers
    some { s with
      loader := { s.loader with pc := .publish done.result }
      file := done.written.getD s.file
      made := s.made ++ done.imported }
  | .publish result =>
    some { s with loader := { s.loader with pc := .setReady, result := some result } }
  | .setReady => some { s with loader := { s.loader with pc := .clearLoading, ready := true } }
  | .clearLoading => some { s with loader := { s.loader with pc := .idle } }

end AppState

/-- The window over a catalog file; it begins with the load that `run` requests. -/
def catalogApp (windows : Bool) (file : List LogTemplate) : Machine AppState AppAction where
  initial := { file := file, made := file, loader := { pc := .work .load } }
  step s
    | .ui action => s.uiStep windows action
    | .loader answers => s.loaderStep answers
    | .tokenizer answer => (s.tokenizer.step answer).map fun t => { s with tokenizer := t }

namespace AppState

variable {s : AppState} {job : CatalogJob}

/-- A modal dialog that is open keeps the main window from being used, and is itself used from
the frame after the one that opened it. -/
def Modal (s : AppState) : AppAction → Prop
  | .ui widget => (widget.onWindow → s.dialog = .closed) ∧ (widget.onDialog → s.dialogShown = true)
  | .loader _ | .tokenizer _ => True

instance : (s : AppState) → (action : AppAction) → Decidable (s.Modal action)
  | s, .ui widget => inferInstanceAs (Decidable
      ((widget.onWindow → s.dialog = .closed) ∧ (widget.onDialog → s.dialogShown = true)))
  | _, .loader _ | _, .tokenizer _ => inferInstanceAs (Decidable True)

@[simp] theorem request_views (job : CatalogJob) (s : AppState) :
    (s.request job).views = s.views := by
  unfold request
  split_ifs <;> rfl

@[simp] theorem request_editor (job : CatalogJob) (s : AppState) :
    (s.request job).editor = s.editor := by
  unfold request
  split_ifs <;> rfl

@[simp] theorem request_dialog (job : CatalogJob) (s : AppState) :
    (s.request job).dialog = s.dialog := by
  unfold request
  split_ifs <;> rfl

@[simp] theorem request_tokenizer (job : CatalogJob) (s : AppState) :
    (s.request job).tokenizer = s.tokenizer := by
  unfold request
  split_ifs <;> rfl

@[simp] theorem request_result (job : CatalogJob) (s : AppState) :
    (s.request job).loader.result = s.loader.result := by
  unfold request
  split_ifs <;> rfl

theorem request_idle (h : s.loader.loading = false) (job : CatalogJob) :
    s.request job = { s with loader := { s.loader with pc := .work job } } := by
  rw [request, if_neg (by simp [h])]

theorem request_publish {result : CatalogLoadResult}
    (h : (s.request job).loader.pc = .publish result) : s.loader.pc = .publish result := by
  unfold request at h
  split_ifs at h
  exact h

end AppState

/-- The results that may still be applied. -/
def CatalogLoader.Holds (loader : CatalogLoader) (result : CatalogLoadResult) : Prop :=
  loader.result = some result ∨ loader.pc = .publish result

theorem AppState.holds_request {s : AppState} {job : CatalogJob} {result : CatalogLoadResult}
    (h : (s.request job).loader.Holds result) : s.loader.Holds result :=
  h.imp (fun hresult => by rwa [request_result] at hresult) request_publish

section Aligned

variable {Answers : LogTemplate → LogTemplateAnalysis → Prop} {s t : AppState} {windows : Bool}

/-- What the services promise for a step: failures come with a text, and an analysis is
answered for the item that was given. -/
def AppAction.Promised (Answers : LogTemplate → LogTemplateAnalysis → Prop) (s : AppState) :
    AppAction → Prop
  | .ui _ => True
  | .loader answers => ∀ job, s.loader.pc = .work job → answers.Promised Answers job
  | .tokenizer answer => Telling answer ∧ ∀ request, s.tokenizer.pc = .tokenize request →
      ∀ analysis, answer = .ok analysis → Answers request.item analysis

/-- The item is the tokenized form of one that the analysis was answered for. -/
def TokenizedWith (Answers : LogTemplate → LogTemplateAnalysis → Prop) (item : LogTemplate)
    (analysis : LogTemplateAnalysis) : Prop :=
  ∃ given, Answers given analysis ∧ item = LogRenderer.tokenizeTemplate given

theorem analysed_of_tokenizedWith {item stored : LogTemplate} {analysis : LogTemplateAnalysis}
    (h : TokenizedWith Answers item analysis) (hsample : stored.sample = item.sample)
    (htestCase : stored.testCase = item.testCase) : Analysed Answers stored analysis := by
  obtain ⟨given, hgiven, rfl⟩ := h
  exact ⟨given, hgiven, .inr ⟨hsample, htestCase⟩⟩

/-- The views show rows, and whatever may come into them has been answered for. -/
structure AppState.Aligned (Answers : LogTemplate → LogTemplateAnalysis → Prop) (s : AppState) :
    Prop where
  views : ∃ rows : List (CatalogRow Answers), s.views.Shows rows
  loader : ∀ result, s.loader.Holds result → result.HasRows Answers
  editor : ∀ item, s.editor.tokenizedItem = some item → TokenizedWith Answers item s.editor.analysis
  tokenizer : ∀ result, s.tokenizer.Holds result → result.error = [] →
    TokenizedWith Answers result.tokenized.item result.tokenized.analysis

namespace AppState

theorem Aligned.request (h : s.Aligned Answers) (job : CatalogJob) :
    (s.request job).Aligned Answers where
  views := by simpa using h.views
  loader result hresult := h.loader result (holds_request hresult)
  editor := by simpa using h.editor
  tokenizer := by simpa using h.tokenizer

theorem Aligned.withViews (h : s.Aligned Answers) {v : CatalogViews} {made : List LogTemplate}
    (hv : ∃ rows : List (CatalogRow Answers), v.Shows rows) :
    ({ s with views := v, made := made } : AppState).Aligned Answers :=
  ⟨hv, h.loader, h.editor, h.tokenizer⟩

theorem Aligned.markSampleChanged (h : s.Aligned Answers) (e : Editor) :
    ({ s with editor := e.markSampleChanged } : AppState).Aligned Answers := by
  refine ⟨h.views, h.loader, ?_, h.tokenizer⟩
  intro item hitem
  cases hitem

theorem Aligned.saveCatalogEditor (h : s.Aligned Answers) :
    s.saveCatalogEditor.Aligned Answers := by
  unfold AppState.saveCatalogEditor
  cases hitem : s.editor.tokenizedItem with
  | none => exact h
  | some tokenized =>
    have hanalysed (stored : LogTemplate) (hsample : stored.sample = tokenized.sample)
        (htestCase : stored.testCase = tokenized.testCase) :
        Analysed Answers stored s.editor.analysis :=
      analysed_of_tokenizedWith (h.editor tokenized hitem) hsample htestCase
    obtain ⟨rows, hrows⟩ := h.views
    simp only
    by_cases hempty : s.editor.name = [] ∨ s.editor.sample = []
    · rw [if_pos hempty]
      exact h
    · rw [if_neg hempty]
      cases s.editor.isNew with
      | true =>
        rw [if_pos rfl]
        cases LogCatalogService.nextId s.views.items with
        | error failure => exact ⟨h.views, h.loader, h.editor, h.tokenizer⟩
        | ok id =>
          apply Aligned.request
          apply h.withViews
          exact ⟨_, hrows.pushItem ⟨{ tokenized with
            id := id, name := s.editor.name, source := bytes "사용자 정의" }, _, hanalysed _ rfl rfl⟩⟩
      | false =>
        rw [if_neg Bool.false_ne_true]
        apply Aligned.request
        apply h.withViews
        exact ⟨_, hrows.replaceItem s.editor.index
          ⟨{ tokenized with name := s.editor.name }, _, hanalysed _ rfl rfl⟩⟩

theorem Aligned.deleteSelectedCatalogItem (h : s.Aligned Answers) :
    s.deleteSelectedCatalogItem.Aligned Answers := by
  obtain ⟨rows, hrows⟩ := h.views
  unfold AppState.deleteSelectedCatalogItem
  split_ifs
  · exact h
  · apply Aligned.request
    apply h.withViews
    exact ⟨_, hrows.eraseItem s.deleteIndex⟩

theorem Aligned.nextStep (h : s.Aligned Answers) : s.nextStep.Aligned Answers := by
  unfold AppState.nextStep
  cases s.ui with
  | applyResult =>
    simp only
    split_ifs
    · exact ⟨h.views, h.loader, h.editor, h.tokenizer⟩
    · exact ⟨h.views, h.loader, h.editor, h.tokenizer⟩
  | takeResult =>
    refine ⟨?_, ?_, h.editor, h.tokenizer⟩
    · cases hresult : s.loader.result with
      | none => exact h.views
      | some result =>
        obtain ⟨rows, hrows⟩ := h.views
        exact hrows.applyCatalogResult (h.loader result (.inl hresult))
    · rintro result (hresult | hresult)
      · cases hresult
      · exact h.loader result (.inr hresult)
  | applyTokenization =>
    simp only
    split_ifs
    · exact ⟨h.views, h.loader, h.editor, h.tokenizer⟩
    · exact ⟨h.views, h.loader, h.editor, h.tokenizer⟩
  | takeTokenization =>
    refine ⟨h.views, h.loader, ?_, ?_⟩
    · cases hresult : s.tokenizer.result with
      | none => exact h.editor
      | some result =>
        intro item hitem
        simp only [Editor.applyResult] at hitem ⊢
        split_ifs at hitem ⊢ with hother herror
        · exact h.editor item hitem
        · exact h.editor item hitem
        · cases hitem
          exact h.tokenizer result (.inl hresult) (not_not.mp herror)
    · rintro result (hresult | hresult)
      · cases hresult
      · exact h.tokenizer result (.inr hresult)
  | storeTokenizing => exact ⟨h.views, h.loader, h.editor, h.tokenizer⟩
  | window | queueTokenization | dialogs => exact ⟨h.views, h.loader, h.editor, h.tokenizer⟩

theorem Aligned.uiStep {action : UiAction} (h : s.Aligned Answers)
    (hstep : s.uiStep windows action = some t) : t.Aligned Answers := by
  obtain ⟨rows, hrows⟩ := h.views
  cases action with
  | next =>
    obtain ⟨-, ⟨⟩⟩ := Option.ite_none_right_eq_some.mp hstep
    exact h.nextStep
  | reload =>
    obtain ⟨-, ⟨⟩⟩ := Option.ite_none_right_eq_some.mp hstep
    exact h.request .load
  | addItem =>
    obtain ⟨-, ⟨⟩⟩ := Option.ite_none_right_eq_some.mp hstep
    have hopened := h.markSampleChanged
      { s.editor with isNew := true, index := s.views.items.length, name := [], sample := [] }
    exact ⟨hopened.views, hopened.loader, hopened.editor, hopened.tokenizer⟩
  | importCsv file =>
    obtain ⟨-, ⟨⟩⟩ := Option.ite_none_right_eq_some.mp hstep
    split_ifs
    · exact h.request _
    · exact ⟨h.views, h.loader, h.editor, h.tokenizer⟩
  | editItem =>
    rw [AppState.uiStep] at hstep
    cases hitem : s.views.items[s.views.visibleCatalogIndex]? with
    | none => simp [hitem] at hstep
    | some item =>
      simp only [hitem] at hstep
      obtain ⟨-, ⟨⟩⟩ := Option.ite_none_right_eq_some.mp hstep
      have hopened := h.markSampleChanged { s.editor with
        isNew := false, index := s.views.visibleCatalogIndex, name := item.name,
        sample := item.sample }
      exact ⟨hopened.views, hopened.loader, hopened.editor, hopened.tokenizer⟩
  | deleteItem =>
    obtain ⟨-, ⟨⟩⟩ := Option.ite_none_right_eq_some.mp hstep
    exact ⟨h.views, h.loader, h.editor, h.tokenizer⟩
  | search query =>
    obtain ⟨-, ⟨⟩⟩ := Option.ite_none_right_eq_some.mp hstep
    exact h.withViews ⟨_, hrows.search query⟩
  | select index =>
    obtain ⟨hguard, ⟨⟩⟩ := Option.ite_none_right_eq_some.mp hstep
    simp only [Bool.and_eq_true, decide_eq_true_eq] at hguard
    exact h.withViews ⟨_, hrows.select hguard.2⟩
  | rotateFiltered rotate =>
    obtain ⟨-, ⟨⟩⟩ := Option.ite_none_right_eq_some.mp hstep
    exact h.withViews ⟨_, hrows.rotate rotate⟩
  | queueTokenization =>
    obtain ⟨-, ⟨⟩⟩ := Option.ite_none_right_eq_some.mp hstep
    exact ⟨h.views, h.loader, h.editor, h.tokenizer⟩
  | typeName name =>
    obtain ⟨-, ⟨⟩⟩ := Option.ite_none_right_eq_some.mp hstep
    exact ⟨h.views, h.loader, h.editor, h.tokenizer⟩
  | typeSample sample =>
    obtain ⟨-, ⟨⟩⟩ := Option.ite_none_right_eq_some.mp hstep
    exact h.markSampleChanged { s.editor with sample := sample }
  | saveEditor =>
    obtain ⟨-, ⟨⟩⟩ := Option.ite_none_right_eq_some.mp hstep
    have hsaved := h.saveCatalogEditor
    exact ⟨hsaved.views, hsaved.loader, hsaved.editor, hsaved.tokenizer⟩
  | confirmDelete =>
    obtain ⟨-, ⟨⟩⟩ := Option.ite_none_right_eq_some.mp hstep
    have hdeleted := h.deleteSelectedCatalogItem
    exact ⟨hdeleted.views, hdeleted.loader, hdeleted.editor, hdeleted.tokenizer⟩
  | confirmImport file =>
    obtain ⟨-, ⟨⟩⟩ := Option.ite_none_right_eq_some.mp hstep
    have hrequested := h.request (.importFile file s.views.items)
    exact ⟨hrequested.views, hrequested.loader, hrequested.editor, hrequested.tokenizer⟩
  | cancel =>
    obtain ⟨-, ⟨⟩⟩ := Option.ite_none_right_eq_some.mp hstep
    exact ⟨h.views, h.loader, h.editor, h.tokenizer⟩

theorem Aligned.loaderStep {answers : LoaderAnswers} (h : s.Aligned Answers)
    (hpromised : ∀ job, s.loader.pc = .work job → answers.Promised Answers job)
    (hstep : s.loaderStep answers = some t) : t.Aligned Answers := by
  rw [AppState.loaderStep] at hstep
  split at hstep
  · cases hstep
  · next job hpc =>
    cases hstep
    refine ⟨h.views, ?_, h.editor, h.tokenizer⟩
    rintro result (hresult | hresult)
    · exact h.loader result (.inl hresult)
    · cases hresult
      exact run_hasRows (hpromised job hpc)
  · next made hpc =>
    cases hstep
    refine ⟨h.views, ?_, h.editor, h.tokenizer⟩
    rintro result (hresult | hresult)
    · cases hresult
      exact h.loader made (.inr hpc)
    · cases hresult
  · cases hstep
    refine ⟨h.views, ?_, h.editor, h.tokenizer⟩
    rintro result (hresult | hresult)
    · exact h.loader result (.inl hresult)
    · cases hresult
  · cases hstep
    refine ⟨h.views, ?_, h.editor, h.tokenizer⟩
    rintro result (hresult | hresult)
    · exact h.loader result (.inl hresult)
    · cases hresult

theorem aligned_step {file : List LogTemplate} {action : AppAction} (h : s.Aligned Answers)
    (hpromised : action.Promised Answers s)
    (hstep : (catalogApp windows file).step s action = some t) : t.Aligned Answers := by
  cases action with
  | ui action => exact h.uiStep hstep
  | loader answers => exact h.loaderStep hpromised hstep
  | tokenizer answer =>
    obtain ⟨tokenizer, htokenizer, rfl⟩ := Option.map_eq_some_iff.mp hstep
    refine ⟨h.views, h.loader, h.editor, ?_⟩
    intro result hresult herror
    rcases (EditorTokenizer.step_cases htokenizer).2 result hresult with hold |
      ⟨request, hpc, rfl⟩
    · exact h.tokenizer result hold herror
    · obtain ⟨analysis, hanswer, htokenized⟩ := request.run_ok hpromised.1 herror
      rw [htokenized]
      exact ⟨request.item, hpromised.2 request hpc analysis hanswer, rfl⟩

theorem aligned_initial (windows : Bool) (file : List LogTemplate) :
    (catalogApp windows file).initial.Aligned Answers where
  views := ⟨[], ⟨rfl, rfl, rfl, rfl⟩, .nil, by simp [catalogApp], fun h => absurd rfl h⟩
  loader := by
    rintro result (hresult | hresult)
    · cases hresult
    · cases hresult
  editor := by
    intro item hitem
    cases hitem
  tokenizer := by
    rintro result (hresult | hresult)
    · cases hresult
    · cases hresult

end AppState

/-- Whatever loads, imports, saves, searches, selections, additions, edits and deletions there
have been, the lists of the window are the columns of rows, the indices found are those of
the rows that the query is in, and nothing is read behind the lists. -/
theorem views_aligned {file : List LogTemplate}
    (h : (catalogApp windows file).Steps (AppAction.Promised Answers)
      (catalogApp windows file).initial s) :
    (∃ rows : List (CatalogRow Answers), s.views.Shows rows) ∧
      (s.views.items ≠ [] → s.views.selectedLog < s.views.items.length ∧
        s.views.visibleCatalogIndex < s.views.items.length ∧
        ∃ templates, s.views.startTemplates = some templates ∧
          ∀ item ∈ templates, item ∈ s.views.items) := by
  have haligned : s.Aligned Answers := by
    apply h.invariant (AppState.aligned_initial windows file)
    intro s action t hs hpromised hstep
    exact AppState.aligned_step hs hpromised hstep
  obtain ⟨rows, hrows⟩ := haligned.views
  refine ⟨⟨rows, hrows⟩, fun hne => ⟨?_, hrows.visible_lt hne, hrows.exists_startTemplates hne⟩⟩
  have hlength : s.views.items.length = rows.length := by rw [hrows.items, List.length_map]
  rw [hlength]
  apply hrows.selected
  rintro rfl
  exact hne hrows.items

end Aligned

/-- What the services answer with: the analysis of the tokenized item. -/
def AnalysisOf (item : LogTemplate) (analysis : LogTemplateAnalysis) : Prop :=
  (LogRenderer.compile (LogRenderer.tokenizeTemplate item)).map LogRenderer.analyze = .ok analysis

def oneAddress : LogTemplateAnalysis := { privacyTokenCount := 1, privacyTokenMask := 128 }

/-- No service answers in the step. -/
def unanswered (s : AppState) (action : AppAction) : Bool :=
  match action, s.loader.pc, s.tokenizer.pc with
  | .loader _, .work _, _ | .tokenizer _, _, .tokenize _ | .tokenizer (.error _), _, _ => false
  | _, _, _ => true

theorem promised_of_unanswered {Answers : LogTemplate → LogTemplateAnalysis → Prop} {s : AppState}
    {action : AppAction} (h : unanswered s action = true) : action.Promised Answers s := by
  unfold unanswered at h
  cases action with
  | ui widget => trivial
  | loader answers =>
    intro job hjob
    simp [hjob] at h
  | tokenizer answer =>
    cases answer with
    | error failure =>
      cases hpc : s.tokenizer.pc
      all_goals simp [hpc] at h
    | ok analysis =>
      refine ⟨telling_ok analysis, fun request hrequest => ?_⟩
      simp [hrequest] at h

theorem promised_answer {Answers : LogTemplate → LogTemplateAnalysis → Prop} {s : AppState}
    {request : EditorTokenizationRequest} {analysis : LogTemplateAnalysis}
    (hpc : s.tokenizer.pc = .tokenize request) (hanswers : Answers request.item analysis) :
    (AppAction.tokenizer (.ok analysis)).Promised Answers s := by
  refine ⟨telling_ok analysis, ?_⟩
  rintro request' hrequest analysis' ⟨⟩
  rw [hpc] at hrequest
  cases hrequest
  exact hanswers

/-- A service that answers without fail to a job that describes no item. -/
theorem promised_job {Answers : LogTemplate → LogTemplateAnalysis → Prop} {s : AppState}
    {job : CatalogJob} (hpc : s.loader.pc = .work job)
    (hnone : (job.run {}).result.items = []) : (AppAction.loader {}).Promised Answers s := by
  intro job' hjob
  rw [hpc] at hjob
  cases hjob
  refine ⟨telling_ok _, telling_ok _, fun _ => telling_ok _, telling_ok _,
    fun _ => telling_ok _, fun index item analysis hitem => ?_⟩
  rw [hnone] at hitem
  cases hitem

def twoItems : List LogTemplate :=
  [{ id := bytes "0001", name := bytes "up", sample := bytes "b" },
    { id := bytes "0002", name := bytes "down", sample := bytes "\x7b\x7bEMAIL\x7d\x7d" }]

def twoLoaded : LoaderAnswers where
  loaded := .ok twoItems
  analyses index := .ok (if index = 1 then oneAddress else {})

set_option maxRecDepth 100000 in
theorem promised_twoLoaded : twoLoaded.Promised AnalysisOf .load := by
  refine ⟨telling_ok _, telling_ok _, fun _ => telling_ok _, telling_ok _,
    fun _ => telling_ok _, ?_⟩
  rintro (_ | _ | index) item analysis hitem ⟨⟩
  · cases hitem
    rfl
  · cases hitem
    rfl
  · cases hitem

set_option maxRecDepth 100000 in
theorem analysisOf_edited : AnalysisOf
    { id := bytes "0002", name := bytes "down", sample := bytes "a" } {} := by
  rfl

/-- The second of two items is searched for and gets another text. -/
def editedRun : List AppAction :=
  List.replicate 3 (.loader {}) ++
    [UiAction.next, .next, .search (bytes "down"), .editItem, .next, .next, .next, .next, .next,
      .next, .next, .next, .typeSample (bytes "a"), .next, .next, .next, .next,
      .queueTokenization, .next].map .ui ++
    [.tokenizer (.ok {})]

/-- It is saved. -/
def savedRun : List AppAction :=
  List.replicate 3 (.tokenizer (.ok {})) ++
    [UiAction.next, .next, .next, .next, .next, .next, .saveEditor].map .ui

/-- The first item is deleted. -/
def erasedRun : List AppAction :=
  List.replicate 3 (.loader {}) ++
    [UiAction.next, .next, .next, .search [], .deleteItem, .next, .next, .next, .next, .next, .next,
      .next, .next, .confirmDelete].map .ui

/-- What is left of the two is the second one with its new text. -/
theorem views_aligned_erased : ∃ s : AppState, s.views.items.map LogTemplate.name = [bytes "down"] ∧
    s.views.items.map LogTemplate.sample = [bytes "a"] ∧ s.views.filteredIndices = [0] ∧
    (∃ rows : List (CatalogRow AnalysisOf), s.views.Shows rows) ∧
    s.views.selectedLog < s.views.items.length := by
  have hrest (s : AppState) (actions : List AppAction) {t : AppState}
      (hexec : (catalogApp true twoItems).execWhile unanswered s actions = some t) :
      (catalogApp true twoItems).Steps (AppAction.Promised AnalysisOf) s t :=
    .of_execWhile (fun _ _ _ => promised_of_unanswered) hexec
  have hload : (catalogApp true twoItems).Steps (AppAction.Promised AnalysisOf)
      (catalogApp true twoItems).initial _ :=
    .single (.loader twoLoaded) (fun _ hjob => by cases hjob; exact promised_twoLoaded) rfl
  have hedited := hload.trans (hrest _ editedRun rfl)
  have hanswered := hedited.trans
    (.single (.tokenizer (.ok {})) (promised_answer rfl analysisOf_edited) rfl)
  have hsaved := hanswered.trans (hrest _ savedRun rfl)
  have hwritten := hsaved.trans (.single (.loader {}) (promised_job rfl rfl) rfl)
  have herased := hwritten.trans (hrest _ erasedRun rfl)
  have hshown := views_aligned herased
  exact ⟨_, rfl, rfl, rfl, hshown.1, (hshown.2 (List.cons_ne_nil _ _)).1⟩

end Presentation
end LogGenerator
