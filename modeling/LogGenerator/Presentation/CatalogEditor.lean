import LogGenerator.Foundation.Overflow
import LogGenerator.Presentation.CatalogLoader

/-!
# The editor of an item

The text of an item is tokenized by a thread of its own. Requests and results pass
through slots that hold one; a result counts for the revision of the text it was asked
for. The revision is a 64-bit counter.
-/

namespace LogGenerator
namespace Presentation

open Ascii Domain Application LogCatalogService

structure EditorTokenizationRequest where
  revision : ℕ
  sourceSample : Bytes
  item : LogTemplate

structure EditorTokenizationResult where
  revision : ℕ
  sourceSample : Bytes
  tokenized : TokenizedLogTemplate := ⟨{ sample := [] }, {}⟩
  error : Bytes := []

/-- The fields of the editor. -/
structure Editor where
  isNew : Bool := false
  index : ℕ := 0
  name : Bytes := []
  sample : Bytes := []
  tokenizedItem : Option LogTemplate := none
  analysis : LogTemplateAnalysis := {}
  analysisPending : Bool := false
  revision : ℕ := 0

namespace Editor

/-- `mark_editor_sample_changed`. -/
def markSampleChanged (e : Editor) : Editor :=
  { e with
    revision := fetchAdd e.revision 1
    tokenizedItem := none
    analysis := {}
    analysisPending := e.sample ≠ [] }

/-- `open_new_catalog_editor`. -/
def openNew (items : List LogTemplate) (e : Editor) : Editor :=
  markSampleChanged { e with isNew := true, index := items.length, name := [], sample := [] }

/-- `open_selected_catalog_editor`, for the item at the index. -/
def openSelected (index : ℕ) (item : LogTemplate) (e : Editor) : Editor :=
  markSampleChanged
    { e with isNew := false, index := index, name := item.name, sample := item.sample }

/-- The item that is edited, or a new one. -/
def edited (items : List LogTemplate) (e : Editor) : LogTemplate :=
  match e.isNew, items[e.index]? with
  | false, some item => item
  | _, _ =>
    { id := bytes "0000", name := e.name, sample := [], source := bytes "사용자 정의" }

/-- What `queue_editor_tokenization` asks for. -/
def request (items : List LogTemplate) (e : Editor) : EditorTokenizationRequest :=
  ⟨e.revision, e.sample, { e.edited items with name := e.name, sample := e.sample }⟩

/-- `apply_editor_tokenization_result` from the place where it has taken the result. -/
def applyResult (result : EditorTokenizationResult) (e : Editor) : Editor :=
  if result.revision ≠ e.revision ∨ result.sourceSample ≠ e.sample then e
  else if result.error ≠ [] then e
  else
    { e with
      analysis := result.tokenized.analysis
      tokenizedItem := some result.tokenized.item }

end Editor

inductive TokenizerPc where
  | wait
  | tokenize (request : EditorTokenizationRequest)
  | publish (result : EditorTokenizationResult)
  | setReady (newer : Bool)
  | storeTokenizing (newer : Bool)

/-- The thread, its two slots and its two flags. -/
structure EditorTokenizer where
  pc : TokenizerPc := .wait
  request : Option EditorTokenizationRequest := none
  result : Option EditorTokenizationResult := none
  ready : Bool := false
  tokenizing : Bool := false

/-- What the thread makes of a request; `answer` is what `tokenize` returns or throws. -/
def EditorTokenizationRequest.run (answer : Except Failure LogTemplateAnalysis)
    (r : EditorTokenizationRequest) : EditorTokenizationResult :=
  match tokenize answer r.item with
  | .ok tokenized => { revision := r.revision, sourceSample := r.sourceSample, tokenized := tokenized }
  | .error failure =>
    { revision := r.revision, sourceSample := r.sourceSample, error := failure.message [] }

/-- A step of `run_editor_tokenizer`; the thread waits while no request is there. -/
def EditorTokenizer.step (answer : Except Failure LogTemplateAnalysis) (t : EditorTokenizer) :
    Option EditorTokenizer :=
  match t.pc with
  | .wait => t.request.map fun request => { t with pc := .tokenize request, request := none }
  | .tokenize request => some { t with pc := .publish (request.run answer) }
  | .publish result =>
    some { t with pc := .setReady t.request.isSome, result := some result }
  | .setReady newer => some { t with pc := .storeTokenizing newer, ready := true }
  | .storeTokenizing newer => some { t with pc := .wait, tokenizing := newer }

namespace EditorTokenizer

/-- The requests that are still to be answered. -/
def Asks (t : EditorTokenizer) (r : EditorTokenizationRequest) : Prop :=
  t.request = some r ∨ t.pc = .tokenize r

/-- The results that may still arrive. -/
def Holds (t : EditorTokenizer) (r : EditorTokenizationResult) : Prop :=
  t.result = some r ∨ t.pc = .publish r

variable {t t' : EditorTokenizer} {answer : Except Failure LogTemplateAnalysis}

/-- What a step does to requests and results: no request comes up, and a new result is the
answer to a request. -/
theorem step_cases (h : t.step answer = some t') :
    (∀ r, t'.Asks r → t.Asks r) ∧
      ∀ result, t'.Holds result → t.Holds result ∨
        ∃ request, t.pc = .tokenize request ∧ result = request.run answer := by
  obtain ⟨pc, request, result, ready, tokenizing⟩ := t
  cases pc with
  | wait =>
    cases request with
    | none => cases h
    | some request =>
      cases h
      constructor
      · rintro r (hr | hr)
        · cases hr
        · cases hr
          exact .inl rfl
      · rintro r (hr | hr)
        · exact .inl (.inl hr)
        · cases hr
  | tokenize asked =>
    cases h
    constructor
    · rintro r (hr | hr)
      · exact .inl hr
      · cases hr
    · rintro r (hr | hr)
      · exact .inl (.inl hr)
      · cases hr
        exact .inr ⟨asked, rfl, rfl⟩
  | publish made =>
    cases h
    constructor
    · rintro r (hr | hr)
      · exact .inl hr
      · cases hr
    · rintro r (hr | hr)
      · cases hr
        exact .inl (.inr rfl)
      · cases hr
  | setReady newer =>
    cases h
    constructor
    · rintro r (hr | hr)
      · exact .inl hr
      · cases hr
    · rintro r (hr | hr)
      · exact .inl (.inl hr)
      · cases hr
  | storeTokenizing newer =>
    cases h
    constructor
    · rintro r (hr | hr)
      · exact .inl hr
      · cases hr
    · rintro r (hr | hr)
      · exact .inl (.inl hr)
      · cases hr

end EditorTokenizer

theorem EditorTokenizationRequest.run_revision (answer : Except Failure LogTemplateAnalysis)
    (r : EditorTokenizationRequest) : (r.run answer).revision = r.revision ∧
      (r.run answer).sourceSample = r.sourceSample := by
  cases answer <;> exact ⟨rfl, rfl⟩

/-- A result without an error is the tokenized item with an analysis answered for it. -/
theorem EditorTokenizationRequest.run_ok {answer : Except Failure LogTemplateAnalysis}
    {r : EditorTokenizationRequest} (hanswer : Telling answer) (h : (r.run answer).error = []) :
    ∃ analysis, answer = .ok analysis ∧
      (r.run answer).tokenized = ⟨LogRenderer.tokenizeTemplate r.item, analysis⟩ := by
  cases answer with
  | error failure => exact absurd h (hanswer failure rfl)
  | ok analysis => exact ⟨analysis, rfl, rfl⟩

end Presentation
end LogGenerator
