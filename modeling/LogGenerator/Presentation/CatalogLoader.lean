import LogGenerator.Presentation.CatalogViews

/-!
# The catalog loader

A job of the loader thread works on the catalog file and leaves a result in a slot that
holds one. What the services answer to its calls is given with the step.
-/

namespace LogGenerator
namespace Presentation

open Ascii Domain Application

inductive CatalogJob where
  | load
  | save (items : List LogTemplate)
  | importFile (file : Bytes) (items : List LogTemplate)

inductive LoaderPc where
  | idle
  | work (job : CatalogJob)
  | publish (result : CatalogLoadResult)
  | setReady
  | clearLoading

/-- `catalog_loading_` is set as long as the thread is not idle. -/
structure CatalogLoader where
  pc : LoaderPc := .idle
  ready : Bool := false
  result : Option CatalogLoadResult := none

def CatalogLoader.loading (loader : CatalogLoader) : Bool :=
  match loader.pc with
  | .idle => false
  | _ => true

/-- What the calls of a job return: those of the catalog service and of the source of
samples, `tokenized` within `import_file` and `analyses` behind it. -/
structure LoaderAnswers where
  loaded : Except Failure (List LogTemplate) := .ok []
  samples : Except Failure (List Bytes) := .ok []
  tokenized : ℕ → Except Failure LogTemplateAnalysis := fun _ => .ok {}
  saved : Except Failure Unit := .ok ()
  analyses : ℕ → Except Failure LogTemplateAnalysis := fun _ => .ok {}

/-- The loop that appends search text, preview and analysis of each item to a result. -/
def describeItems (analyses : ℕ → Except Failure LogTemplateAnalysis) :
    ℕ → CatalogLoadResult → List LogTemplate → CatalogLoadResult
  | _, result, [] => result
  | index, result, item :: items =>
    match analyses index with
    | .error failure => { result with error := failure.message [] }
    | .ok analysis =>
      describeItems analyses (index + 1)
        { result with
          searchNames := result.searchNames ++
            [catalogSearchText item (LogCatalogService.privacySearchTerms analysis)]
          previews := result.previews ++ [samplePreview item.sample]
          analyses := result.analyses ++ [analysis] } items

/-- What a job has done when it has its result. -/
structure JobDone where
  result : CatalogLoadResult
  /-- What was written to the catalog file. -/
  written : Option (List LogTemplate) := none
  /-- The items that an import has added to those it was given. -/
  imported : List LogTemplate := []

def CatalogJob.run (answers : LoaderAnswers) : CatalogJob → JobDone
  | .load =>
    match answers.loaded with
    | .error failure => { result := { error := failure.message [] } }
    | .ok items => { result := describeItems answers.analyses 0 { items := items } items }
  | .save items =>
    match answers.saved with
    | .error failure => { result := { replaceItems := false, error := failure.message [] } }
    | .ok () =>
      { result := { replaceItems := false }
        written := some (items.map LogRenderer.tokenizeTemplate) }
  | .importFile file items =>
    match SampleLogImportService.importFile file answers.samples answers.tokenized items with
    | .error failure => { result := { items := items, error := failure.message [] } }
    | .ok tokenized =>
      let imported := tokenized.map LogCatalogService.TokenizedLogTemplate.item
      let all := items ++ imported
      match answers.saved with
      | .error failure => { result := { items := all, error := failure.message [] } }
      | .ok () =>
        let result := describeItems answers.analyses 0 { items := all } all
        { result :=
            if result.error = [] then { result with selectedIndex := some items.length } else result
          written := some (all.map LogRenderer.tokenizeTemplate)
          imported := imported }

/-- A failure comes with a text. -/
def Telling {α : Type} (answer : Except Failure α) : Prop :=
  ∀ failure, answer = .error failure → failure.message [] ≠ []

theorem telling_ok {α : Type} (a : α) : Telling (.ok a) := by
  intro failure h
  cases h

theorem telling_exception {α : Type} {what : Bytes} (h : what ≠ []) :
    Telling (.error (.exception what) : Except Failure α) := by
  rintro failure ⟨⟩
  exact h

theorem Telling.bind {α β : Type} {answer : Except Failure α} {f : α → Except Failure β}
    (h : Telling answer) (hf : ∀ a, answer = .ok a → Telling (f a)) : Telling (answer >>= f) := by
  cases answer with
  | error failure =>
    rintro failure' ⟨⟩
    exact h failure rfl
  | ok a => exact hf a rfl

section

variable {items : List LogTemplate}

open LogCatalogService

theorem telling_validateIds (identifiers : List Bytes) (items : List LogTemplate) :
    Telling (validateIds identifiers items) := by
  induction items generalizing identifiers with
  | nil => exact telling_ok ()
  | cons item items ih =>
    rw [validateIds]
    split_ifs
    · apply telling_exception
      simp [bytes]
    · apply telling_exception
      simp [bytes]
    · exact ih _

theorem telling_maximumId (maximum : ℕ) (items : List LogTemplate) :
    Telling (maximumId maximum items) := by
  induction items generalizing maximum with
  | nil => exact telling_ok maximum
  | cons item items ih =>
    rw [maximumId]
    split
    · exact ih _
    · apply telling_exception
      simp [bytes]

theorem telling_nextId (items : List LogTemplate) : Telling (nextId items) := by
  apply (telling_validateIds [] items).bind
  intro _ _
  apply (telling_maximumId 0 items).bind
  intro maximum _
  split_ifs
  · exact telling_exception (by simp [bytes])
  · exact telling_ok _

theorem telling_tokenize {analysis : Except Failure LogTemplateAnalysis} (h : Telling analysis)
    (item : LogTemplate) : Telling (tokenize analysis item) := by
  cases analysis with
  | error failure =>
    rintro failure' ⟨⟩
    exact h failure rfl
  | ok analysis => exact telling_ok _

theorem telling_importSamples {analyses : ℕ → Except Failure LogTemplateAnalysis}
    (h : ∀ index, Telling (analyses index)) (baseName sourceName : Bytes) (index : ℕ)
    (assigned : List LogTemplate) (samples : List Bytes) :
    Telling (SampleLogImportService.importSamples baseName sourceName analyses index assigned
      samples) := by
  induction samples generalizing index assigned with
  | nil => exact telling_ok []
  | cons sample samples ih =>
    rw [SampleLogImportService.importSamples]
    apply (telling_nextId assigned).bind
    intro id _
    apply (telling_tokenize (h index) _).bind
    intro tokenized _
    apply (ih (index + 1) _).bind
    intro imported _
    exact telling_ok _

theorem telling_importFile {answers : LoaderAnswers} (hsamples : Telling answers.samples)
    (htokenized : ∀ index, Telling (answers.tokenized index)) (file : Bytes)
    (items : List LogTemplate) :
    Telling (SampleLogImportService.importFile file answers.samples answers.tokenized items) := by
  apply hsamples.bind
  intro samples _
  split_ifs
  · exact telling_exception (by simp [bytes])
  · exact telling_importSamples htokenized _ _ 0 items samples

end

section

variable {Answers : LogTemplate → LogTemplateAnalysis → Prop} {answers : LoaderAnswers}

/-- A result that will replace the lists has the columns of rows. -/
def CatalogLoadResult.HasRows (Answers : LogTemplate → LogTemplateAnalysis → Prop)
    (result : CatalogLoadResult) : Prop :=
  result.error = [] → result.replaceItems = true →
    ∃ rows : List (CatalogRow Answers), result.Lists rows

/-- Failures of the services come with a text, and `analyze` answers for the item given. -/
structure LoaderAnswers.Promised (Answers : LogTemplate → LogTemplateAnalysis → Prop)
    (job : CatalogJob) (answers : LoaderAnswers) : Prop where
  loaded : Telling answers.loaded
  samples : Telling answers.samples
  tokenized : ∀ index, Telling (answers.tokenized index)
  saved : Telling answers.saved
  analyses : ∀ index, Telling (answers.analyses index)
  answered : ∀ index item analysis, (job.run answers).result.items[index]? = some item →
    answers.analyses index = .ok analysis → Answers item analysis

theorem describeItems_frame (analyses : ℕ → Except Failure LogTemplateAnalysis) (index : ℕ)
    (result : CatalogLoadResult) (items : List LogTemplate) :
    (describeItems analyses index result items).items = result.items ∧
      (describeItems analyses index result items).replaceItems = result.replaceItems ∧
      (describeItems analyses index result items).selectedIndex = result.selectedIndex := by
  induction items generalizing index result with
  | nil => exact ⟨rfl, rfl, rfl⟩
  | cons item items ih =>
    rw [describeItems]
    split
    · exact ⟨rfl, rfl, rfl⟩
    · exact ih _ _

/-- The loop adds a row for each item, as long as nothing fails. -/
theorem describeItems_rows {index : ℕ} {items : List LogTemplate} (result : CatalogLoadResult)
    (htelling : ∀ index, Telling (answers.analyses index))
    (hanswered : ∀ k item analysis, items[k]? = some item →
      answers.analyses (index + k) = .ok analysis → Answers item analysis)
    (hdone : (describeItems answers.analyses index result items).error = []) :
    ∃ rows : List (CatalogRow Answers), items = rows.map CatalogRow.item ∧
      (describeItems answers.analyses index result items).searchNames =
        result.searchNames ++ rows.map CatalogRow.searchText ∧
      (describeItems answers.analyses index result items).previews =
        result.previews ++ rows.map CatalogRow.preview ∧
      (describeItems answers.analyses index result items).analyses =
        result.analyses ++ rows.map CatalogRow.analysis := by
  induction items generalizing index result with
  | nil => exact ⟨[], rfl, by simp [describeItems], by simp [describeItems], by simp [describeItems]⟩
  | cons item items ih =>
    rw [describeItems] at hdone ⊢
    cases hanalysis : answers.analyses index with
    | error failure =>
      simp only [hanalysis] at hdone
      exact absurd hdone (htelling index failure hanalysis)
    | ok analysis =>
      simp only [hanalysis] at hdone ⊢
      have hrest : ∀ k item analysis, items[k]? = some item →
          answers.analyses (index + 1 + k) = .ok analysis → Answers item analysis := by
        intro k item analysis hitem hk
        rw [Nat.add_assoc, Nat.add_comm 1] at hk
        exact hanswered (k + 1) item analysis hitem hk
      have hanswer : Answers item analysis := hanswered 0 item analysis rfl hanalysis
      obtain ⟨rows, rfl, hnames, hpreviews, hanalyses⟩ := ih _ hrest hdone
      refine ⟨⟨item, analysis, item, hanswer, .inl rfl⟩ :: rows, rfl, ?_, ?_, ?_⟩
      · rw [hnames, List.append_assoc]
        rfl
      · rw [hpreviews, List.append_assoc]
        rfl
      · rw [hanalyses, List.append_assoc]
        rfl

theorem hasRows_of_error {result : CatalogLoadResult} (h : result.error ≠ []) :
    result.HasRows Answers :=
  fun herror => absurd herror h

theorem describeItems_hasRows {items : List LogTemplate}
    (htelling : ∀ index, Telling (answers.analyses index))
    (hanswered : ∀ index item analysis, items[index]? = some item →
      answers.analyses index = .ok analysis → Answers item analysis) :
    (describeItems answers.analyses 0 { items := items } items).HasRows Answers := by
  intro herror _
  obtain ⟨rows, hitems, hnames, hpreviews, hanalyses⟩ := describeItems_rows { items := items }
    htelling (by simpa using hanswered) herror
  refine ⟨rows, ?_, hnames, hpreviews, hanalyses⟩
  rw [(describeItems_frame answers.analyses 0 { items := items } items).1]
  exact hitems

/-- Every job leaves a result that fails, replaces nothing, or has rows. -/
theorem run_hasRows {job : CatalogJob} (h : answers.Promised Answers job) :
    (job.run answers).result.HasRows Answers := by
  have hanswered := h.answered
  cases job with
  | load =>
    rw [CatalogJob.run] at hanswered ⊢
    cases hloaded : answers.loaded with
    | error failure => exact hasRows_of_error (h.loaded failure hloaded)
    | ok items =>
      simp only [hloaded] at hanswered
      rw [(describeItems_frame answers.analyses 0 { items := items } items).1] at hanswered
      exact describeItems_hasRows h.analyses hanswered
  | save items =>
    rw [CatalogJob.run]
    split
    · exact fun _ hreplace => absurd hreplace Bool.false_ne_true
    · exact fun _ hreplace => absurd hreplace Bool.false_ne_true
  | importFile file items =>
    rw [CatalogJob.run] at hanswered ⊢
    cases himported : SampleLogImportService.importFile file answers.samples answers.tokenized
        items with
    | error failure =>
      exact hasRows_of_error (telling_importFile h.samples h.tokenized file items failure himported)
    | ok tokenized =>
      cases hsaved : answers.saved with
      | error failure => exact hasRows_of_error (h.saved failure hsaved)
      | ok _ =>
        simp only [himported, hsaved] at hanswered ⊢
        split_ifs at hanswered ⊢ with herror
        · rw [(describeItems_frame answers.analyses 0 _ _).1] at hanswered
          intro _ hreplace
          obtain ⟨rows, hrows⟩ := describeItems_hasRows h.analyses hanswered herror hreplace
          exact ⟨rows, hrows.items, hrows.searchNames, hrows.previews, hrows.analyses⟩
        · exact hasRows_of_error herror

end

end Presentation
end LogGenerator
