import LogGenerator.Presentation.CatalogApp

/-!
# The editor saves what it shows

Requests and results may be overwritten and may come late. A result is taken only for the
revision it was asked for, and within one revision neither the text nor the item that is
edited changes while the editor is open.
-/

namespace LogGenerator
namespace Presentation

open Ascii Domain Application

variable {Answers : LogTemplate → LogTemplateAnalysis → Prop} {s t : AppState} {windows : Bool}

namespace Editor

variable {e : Editor} {items : List LogTemplate} {item : LogTemplate}
  {analysis : LogTemplateAnalysis}

/-- The text of the editor with the test case of the item that is edited. -/
def given (items : List LogTemplate) (name : Bytes) (e : Editor) : LogTemplate :=
  { e.edited items with name := name, sample := e.sample }

/-- The item and the analysis are what `tokenize` has answered for the text of the editor. -/
def AnsweredFor (Answers : LogTemplate → LogTemplateAnalysis → Prop) (items : List LogTemplate)
    (e : Editor) (item : LogTemplate) (analysis : LogTemplateAnalysis) : Prop :=
  ∃ name, Answers (e.given items name) analysis ∧
    item = LogRenderer.tokenizeTemplate (e.given items name)

theorem given_typeName (items : List LogTemplate) (name typed : Bytes) (e : Editor) :
    ({ e with name := typed } : Editor).given items name = e.given items name := by
  unfold given edited
  cases e.isNew with
  | true => rfl
  | false => cases items[e.index]? <;> rfl

theorem AnsweredFor.typeName (h : e.AnsweredFor Answers items item analysis) (typed : Bytes) :
    ({ e with name := typed } : Editor).AnsweredFor Answers items item analysis := by
  obtain ⟨name, hname⟩ := h
  refine ⟨name, ?_⟩
  rw [given_typeName]
  exact hname

theorem AnsweredFor.sample (h : e.AnsweredFor Answers items item analysis) :
    item.sample = LogRenderer.tokenize e.sample ∧
      item.testCase = LogRenderer.tokenizeTestCase (e.edited items).testCase := by
  obtain ⟨name, -, rfl⟩ := h
  exact ⟨LogRenderer.tokenizeTemplate_sample _, by rw [LogRenderer.tokenizeTemplate, given]⟩

end Editor

namespace AppState

/-- What a request of the current revision asks for. -/
def AsksNow (s : AppState) (r : EditorTokenizationRequest) : Prop :=
  ∃ name, r.item = s.editor.given s.views.items name

/-- What a result of the current revision answers. -/
def AnswersNow (Answers : LogTemplate → LogTemplateAnalysis → Prop) (s : AppState)
    (r : EditorTokenizationResult) : Prop :=
  r.error = [] →
    s.editor.AnsweredFor Answers s.views.items r.tokenized.item r.tokenized.analysis

/-- No request or result is of a later revision, and those of this one are right as long as
the editor is open. -/
structure Current (Answers : LogTemplate → LogTemplateAnalysis → Prop) (s : AppState) :
    Prop where
  requests : ∀ r, s.tokenizer.Asks r → r.revision ≤ s.editor.revision ∧
    (s.dialog = .editor → r.revision = s.editor.revision → s.AsksNow r)
  results : ∀ r, s.tokenizer.Holds r → r.revision ≤ s.editor.revision ∧
    (s.dialog = .editor → r.revision = s.editor.revision → s.AnswersNow Answers r)
  editor : s.dialog = .editor → ∀ item, s.editor.tokenizedItem = some item →
    s.editor.AnsweredFor Answers s.views.items item s.editor.analysis

/-- Requests and results of the one state are those of the other. -/
structure SameMail (s t : AppState) : Prop where
  requests : ∀ r, t.tokenizer.Asks r → s.tokenizer.Asks r
  results : ∀ r, t.tokenizer.Holds r → s.tokenizer.Holds r

theorem sameMail_of_eq (h : t.tokenizer = s.tokenizer) : SameMail s t :=
  ⟨fun _ hr => h ▸ hr, fun _ hr => h ▸ hr⟩

/-- With the editor shut only the revision counts. -/
theorem Current.shut (h : s.Current Answers) (hmail : SameMail s t)
    (hrevision : t.editor.revision = s.editor.revision) (hdialog : t.dialog ≠ .editor) :
    t.Current Answers where
  requests r hr := ⟨hrevision ▸ (h.requests r (hmail.requests r hr)).1,
    fun hopen => absurd hopen hdialog⟩
  results r hr := ⟨hrevision ▸ (h.results r (hmail.results r hr)).1,
    fun hopen => absurd hopen hdialog⟩
  editor hopen := absurd hopen hdialog

/-- A change of the text leaves every request and result behind. -/
theorem Current.marked {e : Editor} (h : s.Current Answers) (hmail : SameMail s t)
    (hrevision : e.revision = s.editor.revision) (hroom : s.editor.revision + 1 < 2 ^ 64)
    (heditor : t.editor = e.markSampleChanged) : t.Current Answers := by
  have hlater : t.editor.revision = s.editor.revision + 1 := by
    rw [heditor, Editor.markSampleChanged, hrevision, fetchAdd_of_lt hroom]
  refine ⟨?_, ?_, ?_⟩
  · intro r hr
    have hle := (h.requests r (hmail.requests r hr)).1
    exact ⟨by omega, fun _ heq => absurd heq (by omega)⟩
  · intro r hr
    have hle := (h.results r (hmail.results r hr)).1
    exact ⟨by omega, fun _ heq => absurd heq (by omega)⟩
  · intro _ item hitem
    rw [heditor] at hitem
    cases hitem

/-- Nothing that the editor shows has changed. -/
theorem Current.same (h : s.Current Answers) (hmail : SameMail s t) (heditor : t.editor = s.editor)
    (hdialog : t.dialog = s.dialog)
    (hitems : s.dialog = .editor → t.views.items = s.views.items) : t.Current Answers := by
  refine ⟨?_, ?_, ?_⟩
  · intro r hr
    obtain ⟨hle, hnow⟩ := h.requests r (hmail.requests r hr)
    rw [heditor, hdialog]
    refine ⟨hle, fun hopen heq => ?_⟩
    rw [AsksNow, heditor, hitems hopen]
    exact hnow hopen heq
  · intro r hr
    obtain ⟨hle, hnow⟩ := h.results r (hmail.results r hr)
    rw [heditor, hdialog]
    refine ⟨hle, fun hopen heq => ?_⟩
    rw [AnswersNow, heditor, hitems hopen]
    exact hnow hopen heq
  · intro hopen
    rw [hdialog] at hopen
    rw [heditor, hitems hopen]
    exact h.editor hopen

theorem Current.closed (h : s.Current Answers) (htokenizer : t.tokenizer = s.tokenizer)
    (heditor : t.editor = s.editor) (hdialog : t.dialog = .closed) : t.Current Answers :=
  h.shut (sameMail_of_eq htokenizer) (by rw [heditor]) (by rw [hdialog]; decide)

theorem openDialog_ne (s : AppState) {dialog : Dialog} (h : dialog ≠ .editor) :
    (s.openDialog dialog).dialog ≠ .editor := h

@[simp] theorem saveCatalogEditor_tokenizer (s : AppState) :
    s.saveCatalogEditor.tokenizer = s.tokenizer := by
  unfold saveCatalogEditor
  cases s.editor.tokenizedItem with
  | none => rfl
  | some tokenized =>
    simp only
    split_ifs
    · rfl
    · cases LogCatalogService.nextId s.views.items <;> simp [requestCatalogSave]
    · simp [requestCatalogSave]
    · simp [requestCatalogSave]

@[simp] theorem saveCatalogEditor_editor (s : AppState) :
    s.saveCatalogEditor.editor = s.editor := by
  unfold saveCatalogEditor
  cases s.editor.tokenizedItem with
  | none => rfl
  | some tokenized =>
    simp only
    split_ifs
    · rfl
    · cases LogCatalogService.nextId s.views.items <;> simp [requestCatalogSave]
    · simp [requestCatalogSave]
    · simp [requestCatalogSave]

theorem deleteSelectedCatalogItem_frame (s : AppState) :
    s.deleteSelectedCatalogItem.tokenizer = s.tokenizer ∧
      s.deleteSelectedCatalogItem.editor = s.editor := by
  unfold deleteSelectedCatalogItem
  split_ifs
  · exact ⟨rfl, rfl⟩
  · exact ⟨request_tokenizer _ _, request_editor _ _⟩

/-- The step does not replace the catalog while the editor is open. -/
def KeepsCatalog (s : AppState) (action : AppAction) : Prop :=
  ∀ result, action = .ui .next → s.ui = .takeResult → s.loader.result = some result →
    s.dialog = .editor → result.error ≠ [] ∨ result.replaceItems = false

theorem applyCatalogResult_eq {result : CatalogLoadResult} (v : CatalogViews)
    (h : result.error ≠ [] ∨ result.replaceItems = false) : v.applyCatalogResult result = v := by
  unfold CatalogViews.applyCatalogResult
  by_cases herror : result.error = []
  · rw [if_neg (not_not.mpr herror), if_pos (by simp [h.resolve_left (not_not.mpr herror)])]
  · rw [if_pos herror]

theorem Current.applyResult (h : s.Current Answers) {result : EditorTokenizationResult}
    (hresult : s.tokenizer.Holds result) (hmail : SameMail s t)
    (heditor : t.editor = s.editor.applyResult result) (hdialog : t.dialog = s.dialog)
    (hviews : t.views = s.views) : t.Current Answers := by
  by_cases hother : result.revision ≠ s.editor.revision ∨ result.sourceSample ≠ s.editor.sample
  · rw [Editor.applyResult, if_pos hother] at heditor
    exact h.same hmail heditor hdialog fun _ => by rw [hviews]
  · rw [Editor.applyResult, if_neg hother] at heditor
    by_cases herror : result.error = []
    · rw [if_neg (not_not.mpr herror)] at heditor
      push Not at hother
      obtain ⟨requests, results, editor⟩ := h
      refine ⟨?_, ?_, ?_⟩
      · intro r hr
        rw [heditor, hdialog, AsksNow, heditor, hviews]
        exact requests r (hmail.requests r hr)
      · intro r hr
        rw [heditor, hdialog, AnswersNow, heditor, hviews]
        exact results r (hmail.results r hr)
      · intro hopen item hitem
        rw [heditor] at hitem ⊢
        cases hitem
        rw [hviews]
        exact (results result hresult).2 (hdialog ▸ hopen) hother.1 herror
    · rw [if_pos herror] at heditor
      exact h.same hmail heditor hdialog fun _ => by rw [hviews]

theorem Current.nextStep (h : s.Current Answers)
    (hkeeps : s.KeepsCatalog (.ui .next)) : s.nextStep.Current Answers := by
  unfold AppState.nextStep
  cases hui : s.ui with
  | applyResult =>
    simp only
    split_ifs
    · exact h.same (sameMail_of_eq rfl) rfl rfl fun _ => rfl
    · exact h.same (sameMail_of_eq rfl) rfl rfl fun _ => rfl
  | takeResult =>
    refine h.same (sameMail_of_eq rfl) rfl rfl fun hopen => ?_
    cases hresult : s.loader.result with
    | none => rfl
    | some result =>
      simp only
      rw [applyCatalogResult_eq s.views (hkeeps result rfl hui hresult hopen)]
  | applyTokenization =>
    simp only
    split_ifs
    · exact h.same ⟨fun _ hr => hr, fun _ hr => hr⟩ rfl rfl fun _ => rfl
    · exact h.same (sameMail_of_eq rfl) rfl rfl fun _ => rfl
  | takeTokenization =>
    have hmail : SameMail s
        ({ s with tokenizer := { s.tokenizer with result := none } } : AppState) :=
      ⟨fun _ hr => hr, fun _ hr => .inr (hr.resolve_left (by simp))⟩
    cases hresult : s.tokenizer.result with
    | none => exact h.same ⟨hmail.requests, hmail.results⟩ rfl rfl fun _ => rfl
    | some result =>
      exact h.applyResult (.inl hresult) ⟨hmail.requests, hmail.results⟩ rfl rfl rfl
  | storeTokenizing => exact h.same ⟨fun _ hr => hr, fun _ hr => hr⟩ rfl rfl fun _ => rfl
  | window | queueTokenization | dialogs =>
    exact h.same (sameMail_of_eq rfl) rfl rfl fun _ => rfl

/-- The request of the current text is the only one of its revision that comes up. -/
theorem Current.queueTokenization (h : s.Current Answers) :
    ({ s with
      tokenizer := { s.tokenizer with request := some (s.editor.request s.views.items) }
      editor := { s.editor with analysisPending := false }
      ui := .storeTokenizing } : AppState).Current Answers := by
  refine ⟨?_, h.results, h.editor⟩
  rintro r (hr | hr)
  · cases hr
    exact ⟨le_rfl, fun _ _ => ⟨s.editor.name, rfl⟩⟩
  · exact h.requests r (.inr hr)

theorem Current.typeName (h : s.Current Answers) (name : Bytes) :
    ({ s with editor := { s.editor with name := name } } : AppState).Current Answers := by
  refine ⟨?_, ?_, ?_⟩
  · intro r hr
    obtain ⟨hle, hnow⟩ := h.requests r hr
    refine ⟨hle, fun hopen heq => ?_⟩
    obtain ⟨old, hold⟩ := hnow hopen heq
    exact ⟨old, hold.trans (Editor.given_typeName _ _ _ _).symm⟩
  · intro r hr
    obtain ⟨hle, hnow⟩ := h.results r hr
    exact ⟨hle, fun hopen heq herror => (hnow hopen heq herror).typeName name⟩
  · intro hopen item hitem
    exact (h.editor hopen item hitem).typeName name

theorem Current.uiStep {action : UiAction} (h : s.Current Answers)
    (hkeeps : s.KeepsCatalog (.ui action)) (hmodal : s.Modal (.ui action))
    (hroom : s.editor.revision + 1 < 2 ^ 64) (hstep : s.uiStep windows action = some t) :
    t.Current Answers := by
  cases action with
  | next =>
    obtain ⟨-, ⟨⟩⟩ := Option.ite_none_right_eq_some.mp hstep
    exact h.nextStep hkeeps
  | reload =>
    obtain ⟨-, ⟨⟩⟩ := Option.ite_none_right_eq_some.mp hstep
    exact h.closed (request_tokenizer _ _) (request_editor _ _)
      ((request_dialog _ _).trans (hmodal.1 rfl))
  | addItem =>
    obtain ⟨-, ⟨⟩⟩ := Option.ite_none_right_eq_some.mp hstep
    exact h.marked (sameMail_of_eq rfl) (e := { s.editor with
      isNew := true, index := s.views.items.length, name := [], sample := [] }) rfl hroom rfl
  | importCsv file =>
    obtain ⟨-, ⟨⟩⟩ := Option.ite_none_right_eq_some.mp hstep
    split_ifs
    · exact h.closed (request_tokenizer _ _) (request_editor _ _)
        ((request_dialog _ _).trans (hmodal.1 rfl))
    · exact h.shut (sameMail_of_eq rfl) rfl (openDialog_ne s (by decide))
  | editItem =>
    rw [AppState.uiStep] at hstep
    cases hitem : s.views.items[s.views.visibleCatalogIndex]? with
    | none => simp [hitem] at hstep
    | some item =>
      simp only [hitem] at hstep
      obtain ⟨-, ⟨⟩⟩ := Option.ite_none_right_eq_some.mp hstep
      exact h.marked (sameMail_of_eq rfl) (e := { s.editor with
        isNew := false, index := s.views.visibleCatalogIndex, name := item.name,
        sample := item.sample }) rfl hroom rfl
  | deleteItem =>
    obtain ⟨-, ⟨⟩⟩ := Option.ite_none_right_eq_some.mp hstep
    exact h.shut (sameMail_of_eq rfl) rfl (openDialog_ne _ (by decide))
  | search query =>
    obtain ⟨-, ⟨⟩⟩ := Option.ite_none_right_eq_some.mp hstep
    exact h.closed rfl rfl (hmodal.1 rfl)
  | select index =>
    obtain ⟨-, ⟨⟩⟩ := Option.ite_none_right_eq_some.mp hstep
    exact h.closed rfl rfl (hmodal.1 rfl)
  | rotateFiltered rotate =>
    obtain ⟨-, ⟨⟩⟩ := Option.ite_none_right_eq_some.mp hstep
    exact h.closed rfl rfl (hmodal.1 rfl)
  | queueTokenization =>
    obtain ⟨-, ⟨⟩⟩ := Option.ite_none_right_eq_some.mp hstep
    exact h.queueTokenization
  | typeName name =>
    obtain ⟨-, ⟨⟩⟩ := Option.ite_none_right_eq_some.mp hstep
    exact h.typeName name
  | typeSample sample =>
    obtain ⟨-, ⟨⟩⟩ := Option.ite_none_right_eq_some.mp hstep
    exact h.marked (sameMail_of_eq rfl) (e := { s.editor with sample := sample }) rfl hroom rfl
  | saveEditor =>
    obtain ⟨-, ⟨⟩⟩ := Option.ite_none_right_eq_some.mp hstep
    exact h.closed (saveCatalogEditor_tokenizer s) (saveCatalogEditor_editor s) rfl
  | confirmDelete =>
    obtain ⟨-, ⟨⟩⟩ := Option.ite_none_right_eq_some.mp hstep
    obtain ⟨htokenizer, heditor⟩ := s.deleteSelectedCatalogItem_frame
    exact h.closed htokenizer heditor rfl
  | confirmImport file =>
    obtain ⟨-, ⟨⟩⟩ := Option.ite_none_right_eq_some.mp hstep
    exact h.closed (request_tokenizer _ _) (request_editor _ _) rfl
  | cancel =>
    obtain ⟨-, ⟨⟩⟩ := Option.ite_none_right_eq_some.mp hstep
    exact h.closed rfl rfl rfl

/-- The services and the modal dialogs keep their promises, no result replaces the catalog while
the editor is open, and the revision does not wrap. -/
structure EditorStep (Answers : LogTemplate → LogTemplateAnalysis → Prop) (s : AppState)
    (action : AppAction) : Prop where
  promised : action.Promised Answers s
  keeps : s.KeepsCatalog action
  modal : s.Modal action
  revision : s.editor.revision + 1 < 2 ^ 64

theorem current_step {file : List LogTemplate} {action : AppAction} (h : s.Current Answers)
    (hok : EditorStep Answers s action)
    (hstep : (catalogApp windows file).step s action = some t) : t.Current Answers := by
  cases action with
  | ui action => exact h.uiStep hok.keeps hok.modal hok.revision hstep
  | loader answers =>
    change s.loaderStep answers = some t at hstep
    rw [AppState.loaderStep] at hstep
    split at hstep
    · cases hstep
    all_goals
      cases hstep
      exact h.same (sameMail_of_eq rfl) rfl rfl fun _ => rfl
  | tokenizer answer =>
    obtain ⟨tokenizer, htokenizer, rfl⟩ := Option.map_eq_some_iff.mp hstep
    obtain ⟨hasks, hholds⟩ := EditorTokenizer.step_cases htokenizer
    refine ⟨fun r hr => h.requests r (hasks r hr), ?_, h.editor⟩
    intro result hresult
    rcases hholds result hresult with hold | ⟨request, hpc, rfl⟩
    · exact h.results result hold
    · -- the answer to a request that was right for its revision
      obtain ⟨hle, hnow⟩ := h.requests request (.inr hpc)
      rw [(request.run_revision answer).1]
      refine ⟨hle, fun hopen heq herror => ?_⟩
      obtain ⟨name, hname⟩ := hnow hopen heq
      obtain ⟨analysis, hanswer, htokenized⟩ := request.run_ok hok.promised.1 herror
      have hanswered := hok.promised.2 request hpc analysis hanswer
      rw [htokenized, hname]
      rw [hname] at hanswered
      exact ⟨name, hanswered, rfl⟩

theorem current_initial (windows : Bool) (file : List LogTemplate) :
    (catalogApp windows file).initial.Current Answers where
  requests := by
    rintro r (hr | hr)
    · cases hr
    · cases hr
  results := by
    rintro r (hr | hr)
    · cases hr
    · cases hr
  editor hopen := by cases hopen

/-- The catalog gets the text of the editor and the test case of the item that is edited, both
tokenized, with the analysis answered for them; or nothing, when no identifier is left. -/
def SavesAnswered (Answers : LogTemplate → LogTemplateAnalysis → Prop) (s t : AppState) : Prop :=
  t.views = s.views ∨ ∃ name stored, Answers (s.editor.given s.views.items name) s.editor.analysis ∧
    stored.sample = LogRenderer.tokenize s.editor.sample ∧
    stored.testCase = LogRenderer.tokenizeTestCase (s.editor.edited s.views.items).testCase ∧
    t.views = if s.editor.isNew then s.views.pushItem stored s.editor.analysis
      else s.views.replaceItem s.editor.index stored s.editor.analysis

theorem saveCatalogEditor_views {tokenized : LogTemplate}
    (h : s.editor.tokenizedItem = some tokenized) :
    s.saveCatalogEditor.views = s.views ∨ ∃ stored : LogTemplate,
      stored.sample = tokenized.sample ∧ stored.testCase = tokenized.testCase ∧
      s.saveCatalogEditor.views =
        if s.editor.isNew then s.views.pushItem stored s.editor.analysis
        else s.views.replaceItem s.editor.index stored s.editor.analysis := by
  unfold saveCatalogEditor
  simp only [h]
  by_cases hempty : s.editor.name = [] ∨ s.editor.sample = []
  · rw [if_pos hempty]
    exact .inl rfl
  · rw [if_neg hempty]
    cases s.editor.isNew with
    | true =>
      rw [if_pos rfl]
      cases LogCatalogService.nextId s.views.items with
      | error failure => exact .inl rfl
      | ok id =>
        exact .inr ⟨{ tokenized with
          id := id, name := s.editor.name, source := bytes "사용자 정의" }, rfl, rfl,
          request_views _ _⟩
    | false =>
      rw [if_neg Bool.false_ne_true]
      exact .inr ⟨{ tokenized with name := s.editor.name }, rfl, rfl, request_views _ _⟩

theorem savesAnswered (h : s.Current Answers) (hstep : s.uiStep windows .saveEditor = some t) :
    s.SavesAnswered Answers t := by
  obtain ⟨hguard, ⟨⟩⟩ := Option.ite_none_right_eq_some.mp hstep
  simp only [Bool.and_eq_true, atDialog, saveEnabled, beq_iff_eq] at hguard
  obtain ⟨⟨-, hopen⟩, ⟨-, hsome⟩, -⟩ := hguard
  obtain ⟨tokenized, htokenized⟩ := Option.isSome_iff_exists.mp hsome
  have hanswered := h.editor hopen tokenized htokenized
  obtain ⟨hsample, htestCase⟩ := hanswered.sample
  obtain ⟨name, hname, -⟩ := hanswered
  rcases saveCatalogEditor_views htokenized with hsame | ⟨stored, hs, ht, hviews⟩
  · exact .inl hsame
  · exact .inr ⟨name, stored, hname, hs.trans hsample, ht.trans htestCase, hviews⟩

end AppState

/-- In every run with modal dialogs that does not replace the catalog while the editor is open, and
as long as the revision does not wrap, an item that the editor holds is what `tokenize` has
answered for its text and the test case of the item that is edited, with its analysis; and this is
what is saved. -/
theorem editor_answered {file : List LogTemplate}
    (h : (catalogApp windows file).Steps (AppState.EditorStep Answers)
      (catalogApp windows file).initial s) :
    (s.dialog = .editor → ∀ item, s.editor.tokenizedItem = some item →
      s.editor.AnsweredFor Answers s.views.items item s.editor.analysis) ∧
      ∀ t, (catalogApp windows file).step s (.ui .saveEditor) = some t →
        s.SavesAnswered Answers t := by
  have hcurrent : s.Current Answers := by
    apply h.invariant (AppState.current_initial windows file)
    intro s action t hs hok hstep
    exact AppState.current_step hs hok hstep
  refine ⟨hcurrent.editor, ?_⟩
  intro t hstep
  have hsaved : s.uiStep windows .saveEditor = some t := hstep
  exact AppState.savesAnswered hcurrent hsaved

def newItem (sample : Bytes) : LogTemplate :=
  { id := bytes "0000", sample := sample, source := bytes "사용자 정의" }

set_option maxRecDepth 100000 in
theorem analysisOf_newItem : AnalysisOf (newItem (bytes "a")) {} ∧
    AnalysisOf (newItem (bytes "\x7b\x7bEMAIL\x7d\x7d")) oneAddress := by
  constructor
  · rfl
  · rfl

/-- No service answers, no result replaces the catalog behind the editor, and no dialog keeps the
widget from being used. -/
def undisturbed (s : AppState) (action : AppAction) : Bool :=
  unanswered s action && decide (s.Modal action) && decide (s.editor.revision + 1 < 2 ^ 64) &&
    !(s.ui == .takeResult && s.dialog == .editor)

theorem editorStep_of_undisturbed {action : AppAction} (h : undisturbed s action = true) :
    AppState.EditorStep Answers s action := by
  unfold undisturbed at h
  simp only [Bool.and_eq_true, decide_eq_true_eq] at h
  obtain ⟨⟨⟨hunanswered, hmodal⟩, hroom⟩, hshown⟩ := h
  refine ⟨promised_of_unanswered hunanswered, ?_, hmodal, hroom⟩
  rintro result - hui - hopen
  simp [hui, hopen] at hshown

/-- A step of a thread other than the window's. -/
theorem editorStep_thread {action : AppAction} (hpromised : action.Promised Answers s)
    (hmodal : s.Modal action) (hother : action ≠ .ui .next)
    (hroom : s.editor.revision + 1 < 2 ^ 64) : AppState.EditorStep Answers s action :=
  ⟨hpromised, fun _ h => absurd h hother, hmodal, hroom⟩

/-- A new item gets a text, a request for it is sent, and before it is answered the text is
another one. -/
def overtakenRun : List AppAction :=
  List.replicate 3 (.loader {}) ++
    [UiAction.next, .next, .addItem, .next, .next, .next, .next, .next, .next, .next,
      .next, .typeSample (bytes "a"), .next, .next, .next, .next, .queueTokenization,
      .next].map .ui ++
    [.tokenizer (.ok {}), .ui (.typeSample (bytes "\x7b\x7bEMAIL\x7d\x7d"))]

/-- The result comes and is not taken, and a request for the new text is sent. -/
def outdatedRun : List AppAction :=
  List.replicate 3 (.tokenizer (.ok {})) ++
    [UiAction.next, .next, .next, .next, .next, .queueTokenization, .next].map .ui ++
    [.tokenizer (.ok {})]

/-- Its result comes and is taken. -/
def takenRun : List AppAction :=
  List.replicate 3 (.tokenizer (.ok {})) ++ List.replicate 5 (.ui .next)

theorem editor_answered_overtaken : ∃ s : AppState, s.dialog = .editor ∧
    s.editor.sample = bytes "\x7b\x7bEMAIL\x7d\x7d" ∧ s.editor.analysis = oneAddress ∧
    ∃ item, s.editor.tokenizedItem = some item ∧
      s.editor.AnsweredFor AnalysisOf s.views.items item s.editor.analysis := by
  have hrest (s : AppState) (actions : List AppAction) {t : AppState}
      (hexec : (catalogApp true []).execWhile undisturbed s actions = some t) :
      (catalogApp true []).Steps (AppState.EditorStep AnalysisOf) s t :=
    .of_execWhile (fun _ _ _ => editorStep_of_undisturbed) hexec
  obtain ⟨hplain, hmarked⟩ := analysisOf_newItem
  have hload : (catalogApp true []).Steps (AppState.EditorStep AnalysisOf)
      (catalogApp true []).initial _ :=
    .single (.loader {})
      (editorStep_thread (promised_job rfl rfl) trivial (by simp) (by decide)) rfl
  have hovertaken := hload.trans (hrest _ overtakenRun rfl)
  have hanswered := hovertaken.trans (.single (.tokenizer (.ok {}))
    (editorStep_thread (promised_answer rfl hplain) trivial (by simp) (by decide)) rfl)
  have houtdated := hanswered.trans (hrest _ outdatedRun rfl)
  have hagain := houtdated.trans (.single (.tokenizer (.ok oneAddress))
    (editorStep_thread (promised_answer rfl hmarked) trivial (by simp) (by decide)) rfl)
  have htaken := hagain.trans (hrest _ takenRun rfl)
  exact ⟨_, rfl, rfl, rfl, _, rfl, (editor_answered htaken).1 rfl _ rfl⟩

end Presentation
end LogGenerator
