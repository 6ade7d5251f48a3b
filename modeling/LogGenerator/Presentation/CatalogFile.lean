import LogGenerator.Presentation.CatalogApp

/-!
# The catalog and its file

What the user has done to the catalog is kept in `made`; the window and the file follow it.
A result that is waiting to be applied may be behind it, and so may be the items shown.
-/

namespace LogGenerator
namespace Presentation

open Ascii Domain Application

/-- Loading and saving tokenize the items again. -/
def Retokenized (a b : LogTemplate) : Prop := ∃ n, b = LogRenderer.tokenizeTemplate^[n] a

theorem Retokenized.refl (a : LogTemplate) : Retokenized a a := ⟨0, rfl⟩

theorem Retokenized.tokenize {a b : LogTemplate} (h : Retokenized a b) :
    Retokenized a (LogRenderer.tokenizeTemplate b) := by
  obtain ⟨n, rfl⟩ := h
  exact ⟨n + 1, (Function.iterate_succ_apply' _ n a).symm⟩

theorem Retokenized.id_eq {a b : LogTemplate} (h : Retokenized a b) : b.id = a.id := by
  obtain ⟨n, rfl⟩ := h
  induction n with
  | zero => rfl
  | succ n ih => rw [Function.iterate_succ_apply', LogRenderer.tokenizeTemplate_id, ih]

/-- The items are all that the user has made of the catalog. -/
def Whole (made items : List LogTemplate) : Prop := List.Forall₂ Retokenized made items

/-- The items are the first of those that the user has made. -/
def Front (made items : List LogTemplate) : Prop := Whole (made.take items.length) items

section

variable {made items items' : List LogTemplate} {item : LogTemplate}

theorem Whole.refl (items : List LogTemplate) : Whole items items :=
  List.forall₂_same.mpr fun item _ => .refl item

theorem Whole.ids_eq (h : Whole made items) :
    items.map LogTemplate.id = made.map LogTemplate.id := by
  induction h with
  | nil => rfl
  | cons hitem _ ih => rw [List.map_cons, List.map_cons, ih, hitem.id_eq]

theorem Whole.length_eq (h : Whole made items) : items.length = made.length :=
  (List.Forall₂.length_eq h).symm

theorem Whole.tokenize (h : Whole made items) :
    Whole made (items.map LogRenderer.tokenizeTemplate) := by
  rw [Whole, List.forall₂_map_right_iff]
  exact h.imp fun _ _ => Retokenized.tokenize

theorem Whole.append (h : Whole made items) (added : List LogTemplate) :
    Whole (made ++ added) (items ++ added) :=
  List.rel_append h (Whole.refl added)

theorem Whole.set (h : Whole made items) (index : ℕ) (item : LogTemplate) :
    Whole (made.set index item) (items.set index item) := by
  induction h generalizing index with
  | nil => exact .nil
  | cons hitem hrest ih =>
    cases index with
    | zero => exact .cons (.refl item) hrest
    | succ index => exact .cons hitem (ih index)

theorem Whole.eraseIdx (h : Whole made items) (index : ℕ) :
    Whole (made.eraseIdx index) (items.eraseIdx index) := by
  induction h generalizing index with
  | nil => exact .nil
  | cons hitem hrest ih =>
    cases index with
    | zero => exact hrest
    | succ index => exact .cons hitem (ih index)

theorem Whole.replaceItem {v : CatalogViews} (h : Whole made v.items) (index : ℕ)
    (item : LogTemplate) (analysis : LogTemplateAnalysis) :
    Whole (if index < v.items.length then made.set index item else made)
      (v.replaceItem index item analysis).items := by
  rw [CatalogViews.replaceItem, CatalogViews.rebuildFilter_items]
  split_ifs
  · exact h.set index item
  · exact h

theorem Whole.front (h : Whole made items) : Front made items := by
  rw [Front, h.length_eq, List.take_length]
  exact h

theorem Front.whole (h : Front made items) (hlength : items.length = made.length) :
    Whole made items := by
  rwa [Front, hlength, List.take_length] at h

theorem Front.append (h : Front made items) (added : List LogTemplate) :
    Front (made ++ added) items := by
  have hlength := h.length_eq
  rw [List.length_take] at hlength
  rwa [Front, List.take_append_of_le_length (by omega)]

end

/-- The result will replace the items. -/
def CatalogLoadResult.Replaces (result : CatalogLoadResult) : Prop :=
  result.error = [] ∧ result.replaceItems = true

/-- A result with all that the user has made is on its way to the slot. -/
def CatalogLoader.Brings (loader : CatalogLoader) : Prop :=
  ∃ result, loader.pc = .publish result ∧ result.Replaces

/-- Window, file, running job and waiting results, against what the user has made. -/
structure UpToDate (loader : CatalogLoader) (items file made : List LogTemplate) : Prop where
  front : Front made items
  /-- What the window does not show yet is on its way. -/
  shown : Whole made items ∨ (∃ result, loader.result = some result ∧ result.Replaces ∧
    Whole made result.items) ∨ loader.Brings ∨ loader.pc = .work .load
  stored : Whole made file ∨ ∃ saved, loader.pc = .work (.save saved)
  saving : ∀ saved, loader.pc = .work (.save saved) → Whole made saved ∧ Whole made items
  importing : ∀ path base, loader.pc = .work (.importFile path base) → Whole made base
  publishing : ∀ result, loader.pc = .publish result →
    (result.Replaces → Whole made result.items) ∧ (¬ result.Replaces → Whole made items)
  waiting : ∀ result, loader.result = some result → result.Replaces →
    Front made result.items ∧ (Whole made result.items ∨ loader.Brings)

/-- The answers with which a job succeeds; what it loads is the file. -/
structure LoaderAnswers.Succeed (file : List LogTemplate) (job : CatalogJob)
    (answers : LoaderAnswers) : Prop where
  loaded : job = .load → answers.loaded = .ok (file.map LogRenderer.tokenizeTemplate)
  saved : answers.saved = .ok ()
  imported : ∀ path items, job = .importFile path items → ∃ tokenized,
    SampleLogImportService.importFile path answers.samples answers.tokenized items = .ok tokenized
  error : (job.run answers).result.error = []

namespace UpToDate

variable {loader : CatalogLoader} {items file made : List LogTemplate} {answers : LoaderAnswers}
  {ready : Bool}

theorem brings_of_pc {pc : LoaderPc} (hpc : loader.pc = pc) (h : loader.Brings) :
    ∃ result, pc = .publish result ∧ result.Replaces := by
  obtain ⟨result, hresult, hreplaces⟩ := h
  exact ⟨result, hpc.symm.trans hresult, hreplaces⟩

/-- While no job runs, whatever the window does not show waits in the slot. -/
theorem shown_idle (h : UpToDate loader items file made) (hpc : loader.pc = .idle) :
    Whole made items ∨ ∃ result, loader.result = some result ∧ result.Replaces ∧
      Whole made result.items := by
  rcases h.shown with hitems | hwaits | hbrings | hload
  · exact .inl hitems
  · exact .inr hwaits
  · obtain ⟨_, hpublish, -⟩ := brings_of_pc hpc hbrings
    cases hpublish
  · rw [hpc] at hload
    cases hload

theorem whole_items (h : UpToDate loader items file made) (hpc : loader.pc = .idle)
    (hresult : loader.result = none) : Whole made items := by
  rcases h.shown_idle hpc with hitems | ⟨result, hwaits, -⟩
  · exact hitems
  · rw [hresult] at hwaits
    cases hwaits

theorem stored_idle (h : UpToDate loader items file made) (hpc : loader.pc = .idle) :
    Whole made file := by
  rcases h.stored with hfile | ⟨saved, hsave⟩
  · exact hfile
  · rw [hpc] at hsave
    cases hsave

theorem waiting_idle (h : UpToDate loader items file made) (hpc : loader.pc = .idle)
    {result : CatalogLoadResult} (hresult : loader.result = some result)
    (hreplaces : result.Replaces) : Whole made result.items := by
  rcases (h.waiting result hresult hreplaces).2 with hwhole | hbrings
  · exact hwhole
  · obtain ⟨_, hpublish, -⟩ := brings_of_pc hpc hbrings
    cases hpublish

/-- A job that replaces the items leaves all that the user has made. -/
theorem publishing_of (h : UpToDate loader items file made) {added : List LogTemplate}
    {result : CatalogLoadResult} (hreplaces : result.Replaces)
    (hresult : Whole (made ++ added) result.items) {written : List LogTemplate}
    (hwritten : Whole (made ++ added) written) :
    UpToDate { loader with pc := .publish result } items written (made ++ added) where
  front := h.front.append added
  shown := .inr (.inr (.inl ⟨result, rfl, hreplaces⟩))
  stored := .inl hwritten
  saving saved hpc := by cases hpc
  importing path base hpc := by cases hpc
  publishing other hpc := by
    cases hpc
    exact ⟨fun _ => hresult, fun hnot => absurd hreplaces hnot⟩
  waiting other hother hotherReplaces :=
    ⟨(h.waiting other hother hotherReplaces).1.append added, .inr ⟨result, rfl, hreplaces⟩⟩

theorem run_load (h : UpToDate loader items file made) (hpc : loader.pc = .work .load)
    (hok : answers.Succeed file .load) :
    UpToDate { loader with pc := .publish (CatalogJob.run answers .load).result } items
      ((CatalogJob.run answers .load).written.getD file)
      (made ++ (CatalogJob.run answers .load).imported) := by
  have herror := hok.error
  obtain ⟨hframe, hreplace, -⟩ := describeItems_frame answers.analyses 0
    { items := file.map LogRenderer.tokenizeTemplate } (file.map LogRenderer.tokenizeTemplate)
  have hfile : Whole made file := by
    rcases h.stored with hfile | ⟨saved, hsave⟩
    · exact hfile
    · rw [hpc] at hsave
      cases hsave
  simp only [CatalogJob.run, hok.loaded rfl] at herror ⊢
  apply h.publishing_of ⟨herror, hreplace⟩
  · rw [hframe, List.append_nil]
    exact hfile.tokenize
  · rw [List.append_nil]
    exact hfile

theorem run_save (h : UpToDate loader items file made) {saved : List LogTemplate}
    (hpc : loader.pc = .work (.save saved)) (hok : answers.Succeed file (.save saved)) :
    UpToDate { loader with pc := .publish (CatalogJob.run answers (.save saved)).result } items
      ((CatalogJob.run answers (.save saved)).written.getD file)
      (made ++ (CatalogJob.run answers (.save saved)).imported) := by
  obtain ⟨hsaved, hitems⟩ := h.saving saved hpc
  simp only [CatalogJob.run, hok.saved, List.append_nil]
  refine ⟨h.front, .inl hitems, .inl hsaved.tokenize, ?_, ?_, ?_, ?_⟩
  · intro other hother
    cases hother
  · intro path base hbase
    cases hbase
  · intro result hresult
    cases hresult
    exact ⟨fun hreplaces => absurd hreplaces.2 Bool.false_ne_true, fun _ => hitems⟩
  · intro result hresult hreplaces
    obtain ⟨hfront, hwhole | hbrings⟩ := h.waiting result hresult hreplaces
    · exact ⟨hfront, .inl hwhole⟩
    · obtain ⟨_, hpublish, -⟩ := brings_of_pc hpc hbrings
      cases hpublish

theorem run_importFile (h : UpToDate loader items file made) {path : Bytes}
    {base : List LogTemplate} (hpc : loader.pc = .work (.importFile path base))
    (hok : answers.Succeed file (.importFile path base)) :
    UpToDate { loader with pc := .publish (CatalogJob.run answers (.importFile path base)).result }
      items ((CatalogJob.run answers (.importFile path base)).written.getD file)
      (made ++ (CatalogJob.run answers (.importFile path base)).imported) := by
  have herror := hok.error
  obtain ⟨tokenized, htokenized⟩ := hok.imported path base rfl
  have hbase := h.importing path base hpc
  let all := base ++ tokenized.map LogCatalogService.TokenizedLogTemplate.item
  obtain ⟨hframe, hreplace, -⟩ := describeItems_frame answers.analyses 0 { items := all } all
  simp only [CatalogJob.run, htokenized, hok.saved] at herror ⊢
  split_ifs at herror ⊢ with hdescribed
  · have hreplaces : CatalogLoadResult.Replaces
        { describeItems answers.analyses 0 { items := all } all with
          selectedIndex := some base.length } := ⟨hdescribed, hreplace⟩
    exact h.publishing_of hreplaces (hframe ▸ hbase.append _) (hbase.append _).tokenize
  · exact absurd herror hdescribed

theorem run_job (h : UpToDate loader items file made) {job : CatalogJob}
    (hpc : loader.pc = .work job) (hok : answers.Succeed file job) :
    UpToDate { loader with pc := .publish (job.run answers).result } items
      ((job.run answers).written.getD file) (made ++ (job.run answers).imported) := by
  cases job with
  | load => exact h.run_load hpc hok
  | save saved => exact h.run_save hpc hok
  | importFile path base => exact h.run_importFile hpc hok

/-- The slot gets the result, whatever it held. -/
theorem publish (h : UpToDate loader items file made) {result : CatalogLoadResult}
    (hpc : loader.pc = .publish result) :
    UpToDate { loader with pc := .setReady, result := some result } items file made where
  front := h.front
  shown := by
    by_cases hreplaces : result.Replaces
    · exact .inr (.inl ⟨result, rfl, hreplaces, (h.publishing result hpc).1 hreplaces⟩)
    · exact .inl ((h.publishing result hpc).2 hreplaces)
  stored := by
    rcases h.stored with hfile | ⟨saved, hsave⟩
    · exact .inl hfile
    · rw [hpc] at hsave
      cases hsave
  saving saved hsave := by cases hsave
  importing path base hbase := by cases hbase
  publishing other hother := by cases hother
  waiting other hother hreplaces := by
    cases hother
    have hwhole := (h.publishing result hpc).1 hreplaces
    exact ⟨hwhole.front, .inl hwhole⟩

/-- The steps behind the slot change the flags only. -/
theorem finish (h : UpToDate loader items file made) {pc : LoaderPc}
    (hpc : loader.pc = .setReady ∨ loader.pc = .clearLoading)
    (hnext : pc = .clearLoading ∨ pc = .idle) :
    UpToDate { loader with pc := pc, ready := ready } items file made := by
  have hbrings : ¬ loader.Brings := by
    rintro ⟨result, hresult, -⟩
    rcases hpc with hpc | hpc <;> simp [hpc] at hresult
  refine ⟨h.front, ?_, .inl ?_, ?_, ?_, ?_, ?_⟩
  · rcases h.shown with hitems | hwaits | hsome | hload
    · exact .inl hitems
    · exact .inr (.inl hwaits)
    · exact absurd hsome hbrings
    · rcases hpc with hpc | hpc <;> simp [hpc] at hload
  · rcases h.stored with hfile | ⟨saved, hsave⟩
    · exact hfile
    · rcases hpc with hpc | hpc <;> simp [hpc] at hsave
  · intro saved hsave
    rcases hnext with rfl | rfl <;> cases hsave
  · intro path base hbase
    rcases hnext with rfl | rfl <;> cases hbase
  · intro result hresult
    rcases hnext with rfl | rfl <;> cases hresult
  · intro result hresult hreplaces
    obtain ⟨hfront, hwhole⟩ := h.waiting result hresult hreplaces
    exact ⟨hfront, .inl (hwhole.resolve_right hbrings)⟩

theorem withReady (h : UpToDate loader items file made) (ready : Bool) :
    UpToDate { loader with ready := ready } items file made :=
  ⟨h.front, h.shown, h.stored, h.saving, h.importing, h.publishing, h.waiting⟩

/-- The result that waits takes the place of the items. -/
theorem take_replaces (h : UpToDate loader items file made) {result : CatalogLoadResult}
    (hresult : loader.result = some result) (hreplaces : result.Replaces) :
    UpToDate { loader with result := none } result.items file made := by
  obtain ⟨hfront, hwhole⟩ := h.waiting result hresult hreplaces
  refine ⟨hfront, ?_, h.stored, ?_, h.importing, ?_, fun other hother => ?_⟩
  · exact hwhole.imp_right fun hbrings => .inr (.inl hbrings)
  · intro saved hsave
    refine ⟨(h.saving saved hsave).1, hwhole.resolve_right ?_⟩
    rintro ⟨other, hother, -⟩
    rw [hsave] at hother
    cases hother
  · intro published hpublish
    refine ⟨(h.publishing published hpublish).1, fun hnot => hwhole.resolve_right ?_⟩
    rintro ⟨other, hother, hreplacesOther⟩
    rw [hpublish] at hother
    cases hother
    exact hnot hreplacesOther
  · cases hother

theorem take_keeps (h : UpToDate loader items file made)
    (hnone : ∀ result, loader.result = some result → ¬ result.Replaces) :
    UpToDate { loader with result := none } items file made := by
  refine ⟨h.front, ?_, h.stored, h.saving, h.importing, h.publishing, fun other hother => ?_⟩
  · rcases h.shown with hitems | ⟨result, hresult, hreplaces, -⟩ | hrest
    · exact .inl hitems
    · exact absurd hreplaces (hnone result hresult)
    · exact .inr (.inr hrest)
  · cases hother

theorem request_load (h : UpToDate loader items file made) (hpc : loader.pc = .idle) :
    UpToDate { loader with pc := .work .load } items file made where
  front := h.front
  shown := .inr (.inr (.inr rfl))
  stored := .inl (h.stored_idle hpc)
  saving saved hsave := by cases hsave
  importing path base hbase := by cases hbase
  publishing result hresult := by cases hresult
  waiting result hresult hreplaces :=
    ⟨(h.waiting result hresult hreplaces).1, .inl (h.waiting_idle hpc hresult hreplaces)⟩

/-- An import begins from all that the user has made when nothing else waits to be shown. -/
theorem request_importFile (h : UpToDate loader items file made) (hpc : loader.pc = .idle)
    (hsame : ∀ result, loader.result = some result → result.Replaces →
      result.items.map LogTemplate.id = items.map LogTemplate.id) (path : Bytes) :
    UpToDate { loader with pc := .work (.importFile path items) } items file made := by
  have hwhole : Whole made items := by
    rcases h.shown_idle hpc with hitems | ⟨result, hresult, hreplaces, hwhole⟩
    · exact hitems
    · apply h.front.whole
      have hlength := congrArg List.length (hsame result hresult hreplaces)
      rw [List.length_map, List.length_map] at hlength
      rw [← hlength, hwhole.length_eq]
  refine ⟨h.front, .inl hwhole, .inl (h.stored_idle hpc), ?_, ?_, ?_, ?_⟩
  · intro saved hsave
    cases hsave
  · intro path' base hbase
    cases hbase
    exact hwhole
  · intro result hresult
    cases hresult
  · intro result hresult hreplaces
    exact ⟨(h.waiting result hresult hreplaces).1,
      .inl (h.waiting_idle hpc hresult hreplaces)⟩

theorem request_save (hresult : loader.result = none) (hitems : Whole made items) :
    UpToDate { loader with pc := .work (.save items) } items file made where
  front := hitems.front
  shown := .inl hitems
  stored := .inr ⟨items, rfl⟩
  saving saved hsave := by
    cases hsave
    exact ⟨hitems, hitems⟩
  importing path base hbase := by cases hbase
  publishing result hpublish := by cases hpublish
  waiting result hwaits := by
    rw [hresult] at hwaits
    cases hwaits

end UpToDate

namespace AppState

variable {s t : AppState} {windows : Bool}

/-- The flag is up when a result waits, and behind an open dialog no thread runs and, from the
first frame after the one that opened it, no result waits. -/
structure Controls (s : AppState) : Prop where
  flagged : s.loader.result ≠ none →
    s.loader.ready = true ∨ s.ui = .takeResult ∨ s.loader.pc = .setReady
  idle : s.dialog ≠ .closed → s.loader.pc = .idle
  emptied : s.dialog ≠ .closed → s.dialogShown = true → s.ui ≠ .applyResult →
    s.ui ≠ .takeResult → s.loader.result = none

/-- No loader is running and no result is waiting. -/
def Quiet (s : AppState) : Prop := s.loader.pc = .idle ∧ s.loader.result = none

/-- Window and file show the same identifiers in the same order, and both show what the user
has made of the catalog. -/
structure InStep (s : AppState) : Prop where
  ids : s.views.items.map LogTemplate.id = s.file.map LogTemplate.id
  items : Whole s.made s.views.items
  file : Whole s.made s.file

/-- The jobs of the run succeed. -/
def JobsSucceed (s : AppState) : AppAction → Prop
  | .loader answers => ∀ job, s.loader.pc = .work job → answers.Succeed s.file job
  | _ => True

/-- An import that begins at once finds no result waiting that would change the list of the
identifiers. -/
def ImportsShown (windows : Bool) (s : AppState) (action : AppAction) : Prop :=
  ∀ file, action = .ui (.importCsv file) → windows = true → ∀ result,
    s.loader.result = some result → result.Replaces →
      result.items.map LogTemplate.id = s.views.items.map LogTemplate.id

theorem idle_of_loading (h : s.loader.loading = false) : s.loader.pc = .idle := by
  unfold CatalogLoader.loading at h
  split at h
  · assumption
  · cases h

theorem loading_of_idle (h : s.loader.pc = .idle) : s.loader.loading = false := by
  rw [CatalogLoader.loading, h]

/-- The invariant of the runs. -/
structure Following (s : AppState) : Prop where
  controls : s.Controls
  upToDate : UpToDate s.loader s.views.items s.file s.made

theorem Following.inStep (h : s.Following) (hquiet : s.Quiet) : s.InStep := by
  have hitems := h.upToDate.whole_items hquiet.1 hquiet.2
  have hfile := h.upToDate.stored_idle hquiet.1
  exact ⟨by rw [hitems.ids_eq, hfile.ids_eq], hitems, hfile⟩

/-- A step that touches neither the lists nor the loader, and neither opens a dialog nor takes
a result. -/
theorem Following.same (h : s.Following) (hloader : t.loader = s.loader)
    (hitems : t.views.items = s.views.items) (hfile : t.file = s.file) (hmade : t.made = s.made)
    (hcontrols : t.Controls) : t.Following :=
  ⟨hcontrols, by rw [hloader, hitems, hfile, hmade]; exact h.upToDate⟩

/-- With the dialog closed only the flag counts. -/
theorem Controls.of_closed (hdialog : t.dialog = .closed) (hflagged : t.loader.result ≠ none →
    t.loader.ready = true ∨ t.ui = .takeResult ∨ t.loader.pc = .setReady) : t.Controls :=
  ⟨hflagged, fun hopen => absurd hdialog hopen, fun hopen => absurd hdialog hopen⟩

theorem Controls.same (h : s.Controls) (hloader : t.loader = s.loader)
    (hdialog : t.dialog = s.dialog) (hshown : t.dialogShown = s.dialogShown) (hui : t.ui = s.ui) :
    t.Controls := by
  refine ⟨?_, ?_, ?_⟩
  · rw [hloader, hui]
    exact h.flagged
  · rw [hloader, hdialog]
    exact h.idle
  · rw [hloader, hdialog, hshown, hui]
    exact h.emptied

/-- Away from the step that sets the flag it is up, or the frame is taking the result. -/
theorem Controls.flagged_of_ne (h : s.Controls) (hpc : s.loader.pc ≠ .setReady)
    (hresult : s.loader.result ≠ none) : s.loader.ready = true ∨ s.ui = .takeResult := by
  rcases h.flagged hresult with hready | htake | hset
  · exact .inl hready
  · exact .inr htake
  · exact absurd hset hpc

/-- The frame goes on behind the steps that apply a result. -/
theorem Controls.advance (h : s.Controls) (hui : s.ui ≠ .applyResult ∧ s.ui ≠ .takeResult)
    (hloader : t.loader = s.loader) (hdialog : t.dialog = s.dialog)
    (hshown : t.dialogShown = s.dialogShown ∨ t.ui = .applyResult) : t.Controls := by
  refine ⟨?_, ?_, ?_⟩
  · rw [hloader]
    intro hresult
    rcases h.flagged hresult with hready | htake | hpc
    · exact .inl hready
    · exact absurd htake hui.2
    · exact .inr (.inr hpc)
  · rw [hloader, hdialog]
    exact h.idle
  · rw [hloader, hdialog]
    intro hopen hnow hother _
    rcases hshown with hshown | hfirst
    · exact h.emptied hopen (hshown ▸ hnow) hui.1 hui.2
    · exact absurd hfirst hother

/-- A thread begins while the main window is used. -/
theorem Controls.begun (h : s.Controls) (hdialog : s.dialog = .closed)
    (hpc : s.loader.pc = .idle) (job : CatalogJob) :
    ({ s with loader := { s.loader with pc := .work job } } : AppState).Controls := by
  refine Controls.of_closed hdialog fun hresult => ?_
  have hne : s.loader.pc ≠ .setReady := by simp [hpc]
  exact (h.flagged_of_ne hne hresult).imp_right .inl

/-- A dialog opens while no thread runs. -/
theorem Controls.opened (h : s.Controls) (hloader : t.loader = s.loader)
    (hpc : s.loader.pc = .idle) (hui : t.ui = s.ui) (hshown : t.dialogShown = false) :
    t.Controls := by
  refine ⟨?_, ?_, ?_⟩
  · rw [hloader, hui]
    exact h.flagged
  · rw [hloader]
    exact fun _ => hpc
  · rw [hshown]
    exact fun _ hnow => absurd hnow Bool.false_ne_true

theorem Following.applyResult (h : s.Following) (hui : s.ui = .applyResult) :
    s.nextStep.Following := by
  unfold nextStep
  rw [hui]
  simp only
  by_cases hready : s.loader.ready = true
  · rw [if_pos hready]
    refine ⟨⟨fun _ => .inr (.inl rfl), h.controls.idle, fun _ _ _ htake => absurd rfl htake⟩, ?_⟩
    exact h.upToDate.withReady false
  · rw [if_neg hready]
    have hset : s.loader.result ≠ none → s.loader.pc = .setReady := by
      intro hresult
      rcases h.controls.flagged hresult with hflag | htake | hset
      · exact absurd hflag hready
      · rw [hui] at htake
        cases htake
      · exact hset
    refine ⟨⟨fun hresult => .inr (.inr (hset hresult)), h.controls.idle, ?_⟩, h.upToDate⟩
    intro hopen _ _ _
    by_contra hresult
    have hidle := h.controls.idle hopen
    rw [hset hresult] at hidle
    cases hidle

theorem applyCatalogResult_items (result : CatalogLoadResult) (v : CatalogViews) :
    (result.Replaces → (v.applyCatalogResult result).items = result.items) ∧
      (¬ result.Replaces → (v.applyCatalogResult result).items = v.items) := by
  unfold CatalogLoadResult.Replaces CatalogViews.applyCatalogResult
  by_cases herror : result.error = []
  · rw [if_neg (not_not.mpr herror)]
    cases hreplace : result.replaceItems with
    | false => simp [herror]
    | true => simp [herror]
  · rw [if_pos herror]
    simp [herror]

theorem Following.takeResult (h : s.Following) (hui : s.ui = .takeResult) :
    s.nextStep.Following := by
  have hcontrols : s.nextStep.Controls := by
    unfold nextStep
    rw [hui]
    exact ⟨fun hresult => absurd rfl hresult, h.controls.idle, fun _ _ _ _ => rfl⟩
  refine ⟨hcontrols, ?_⟩
  unfold nextStep
  rw [hui]
  simp only
  cases hresult : s.loader.result with
  | none =>
    apply h.upToDate.take_keeps
    intro result hsome
    rw [hresult] at hsome
    cases hsome
  | some result =>
    simp only
    obtain ⟨hnew, hold⟩ := applyCatalogResult_items result s.views
    by_cases hreplaces : result.Replaces
    · rw [hnew hreplaces]
      exact h.upToDate.take_replaces hresult hreplaces
    · rw [hold hreplaces]
      apply h.upToDate.take_keeps
      intro other hother
      rw [hresult] at hother
      cases hother
      exact hreplaces

theorem Following.nextStep (h : s.Following) : s.nextStep.Following := by
  cases hui : s.ui with
  | applyResult => exact h.applyResult hui
  | takeResult => exact h.takeResult hui
  | window | queueTokenization | storeTokenizing | takeTokenization =>
    unfold AppState.nextStep
    rw [hui]
    exact h.same rfl rfl rfl rfl
      (h.controls.advance (by rw [hui]; decide) rfl rfl (.inl rfl))
  | applyTokenization =>
    unfold AppState.nextStep
    rw [hui]
    simp only
    split_ifs
    · exact h.same rfl rfl rfl rfl
        (h.controls.advance (by rw [hui]; decide) rfl rfl (.inl rfl))
    · exact h.same rfl rfl rfl rfl
        (h.controls.advance (by rw [hui]; decide) rfl rfl (.inl rfl))
  | dialogs =>
    unfold AppState.nextStep
    rw [hui]
    exact h.same rfl rfl rfl rfl
      (h.controls.advance (by rw [hui]; decide) rfl rfl (.inr rfl))

/-- In a dialog that can be used everything is shown and stored. -/
theorem Following.atDialog (h : s.Following) {dialog : Dialog} (hdialog : dialog ≠ .closed)
    (hat : s.atDialog dialog = true) (hshown : s.dialogShown = true) :
    s.loader.pc = .idle ∧ s.loader.result = none ∧ Whole s.made s.views.items ∧
      Whole s.made s.file := by
  simp only [AppState.atDialog, Bool.and_eq_true, beq_iff_eq] at hat
  obtain ⟨⟨-, hui⟩, rfl⟩ := hat
  have hpc := h.controls.idle hdialog
  have hresult := h.controls.emptied hdialog hshown (by rw [hui]; decide) (by rw [hui]; decide)
  exact ⟨hpc, hresult, h.upToDate.whole_items hpc hresult, h.upToDate.stored_idle hpc⟩

/-- The dialog closes over a job that begins, or over nothing. -/
theorem following_closeDialog (hresult : s.loader.result = none)
    (hupToDate : UpToDate s.loader s.views.items s.file s.made) : s.closeDialog.Following :=
  ⟨.of_closed rfl fun hwaits => absurd hresult hwaits, hupToDate⟩

/-- A change that the user has made is shown at once, and a thread begins to save it. -/
theorem upToDate_requestCatalogSave (hpc : s.loader.pc = .idle) (hresult : s.loader.result = none)
    (hitems : Whole s.made s.views.items) :
    UpToDate s.requestCatalogSave.loader s.requestCatalogSave.views.items
      s.requestCatalogSave.file s.requestCatalogSave.made := by
  rw [requestCatalogSave, request_idle (loading_of_idle hpc)]
  exact .request_save hresult hitems

theorem Following.saveCatalogEditor (h : s.Following) (hat : s.atDialog .editor = true)
    (hshown : s.dialogShown = true) : s.saveCatalogEditor.closeDialog.Following := by
  obtain ⟨hpc, hresult, hitems, hfile⟩ := h.atDialog (by decide) hat hshown
  unfold AppState.saveCatalogEditor
  cases s.editor.tokenizedItem with
  | none => exact following_closeDialog hresult h.upToDate
  | some tokenized =>
    simp only
    by_cases hempty : s.editor.name = [] ∨ s.editor.sample = []
    · rw [if_pos hempty]
      exact following_closeDialog hresult h.upToDate
    · rw [if_neg hempty]
      cases s.editor.isNew with
      | true =>
        rw [if_pos rfl]
        cases LogCatalogService.nextId s.views.items with
        | error failure =>
          have hended : UpToDate s.loader s.views.items s.file s.made := h.upToDate
          exact following_closeDialog (s := { s with running := false }) hresult hended
        | ok id =>
          apply following_closeDialog
          · exact (request_result _ _).trans hresult
          · exact upToDate_requestCatalogSave hpc hresult (hitems.append _)
      | false =>
        rw [if_neg Bool.false_ne_true]
        apply following_closeDialog
        · exact (request_result _ _).trans hresult
        · exact upToDate_requestCatalogSave hpc hresult
            (hitems.replaceItem s.editor.index _ s.editor.analysis)

theorem Following.deleteSelectedCatalogItem (h : s.Following)
    (hat : s.atDialog .deleteItem = true) (hshown : s.dialogShown = true) :
    s.deleteSelectedCatalogItem.closeDialog.Following := by
  obtain ⟨hpc, hresult, hitems, hfile⟩ := h.atDialog (by decide) hat hshown
  unfold AppState.deleteSelectedCatalogItem
  split_ifs
  · exact following_closeDialog hresult h.upToDate
  · apply following_closeDialog
    · exact (request_result _ _).trans hresult
    · exact upToDate_requestCatalogSave hpc hresult (hitems.eraseIdx s.deleteIndex)

theorem Following.uiStep {action : UiAction} (h : s.Following)
    (hshown : s.ImportsShown windows (.ui action)) (hmodal : s.Modal (.ui action))
    (hstep : s.uiStep windows action = some t) : t.Following := by
  cases action with
  | next =>
    obtain ⟨-, ⟨⟩⟩ := Option.ite_none_right_eq_some.mp hstep
    exact h.nextStep
  | reload =>
    obtain ⟨hguard, ⟨⟩⟩ := Option.ite_none_right_eq_some.mp hstep
    simp only [Bool.and_eq_true, Bool.not_eq_true'] at hguard
    have hpc := idle_of_loading hguard.2
    rw [requestCatalogLoad, request_idle hguard.2]
    exact ⟨h.controls.begun (hmodal.1 rfl) hpc .load, h.upToDate.request_load hpc⟩
  | addItem =>
    obtain ⟨hguard, ⟨⟩⟩ := Option.ite_none_right_eq_some.mp hstep
    simp only [Bool.and_eq_true, Bool.not_eq_true'] at hguard
    exact h.same rfl rfl rfl rfl (h.controls.opened rfl (idle_of_loading hguard.2) rfl rfl)
  | importCsv file =>
    obtain ⟨hguard, ⟨⟩⟩ := Option.ite_none_right_eq_some.mp hstep
    simp only [Bool.and_eq_true, Bool.not_eq_true'] at hguard
    have hpc := idle_of_loading hguard.2
    cases windows with
    | true =>
      rw [if_pos rfl, requestSampleLogImport, request_idle hguard.2]
      exact ⟨h.controls.begun (hmodal.1 rfl) hpc _,
        h.upToDate.request_importFile hpc (hshown file rfl rfl) file⟩
    | false =>
      rw [if_neg Bool.false_ne_true]
      exact h.same rfl rfl rfl rfl (h.controls.opened rfl hpc rfl rfl)
  | editItem =>
    rw [AppState.uiStep] at hstep
    cases hitem : s.views.items[s.views.visibleCatalogIndex]? with
    | none => simp [hitem] at hstep
    | some item =>
      simp only [hitem] at hstep
      obtain ⟨hguard, ⟨⟩⟩ := Option.ite_none_right_eq_some.mp hstep
      simp only [Bool.and_eq_true, Bool.not_eq_true'] at hguard
      exact h.same rfl rfl rfl rfl (h.controls.opened rfl (idle_of_loading hguard.2) rfl rfl)
  | deleteItem =>
    obtain ⟨hguard, ⟨⟩⟩ := Option.ite_none_right_eq_some.mp hstep
    simp only [Bool.and_eq_true, Bool.not_eq_true'] at hguard
    exact h.same rfl rfl rfl rfl (h.controls.opened rfl (idle_of_loading hguard.1.2) rfl rfl)
  | search query =>
    obtain ⟨-, ⟨⟩⟩ := Option.ite_none_right_eq_some.mp hstep
    exact h.same rfl rfl rfl rfl (h.controls.same rfl rfl rfl rfl)
  | select index =>
    obtain ⟨-, ⟨⟩⟩ := Option.ite_none_right_eq_some.mp hstep
    exact h.same rfl rfl rfl rfl (h.controls.same rfl rfl rfl rfl)
  | rotateFiltered rotate =>
    obtain ⟨-, ⟨⟩⟩ := Option.ite_none_right_eq_some.mp hstep
    exact h.same rfl rfl rfl rfl (h.controls.same rfl rfl rfl rfl)
  | queueTokenization =>
    obtain ⟨hguard, ⟨⟩⟩ := Option.ite_none_right_eq_some.mp hstep
    simp only [Bool.and_eq_true, beq_iff_eq] at hguard
    exact h.same rfl rfl rfl rfl
      (h.controls.advance (by rw [hguard.1.1.2]; decide) rfl rfl (.inl rfl))
  | typeName name =>
    obtain ⟨-, ⟨⟩⟩ := Option.ite_none_right_eq_some.mp hstep
    exact h.same rfl rfl rfl rfl (h.controls.same rfl rfl rfl rfl)
  | typeSample sample =>
    obtain ⟨-, ⟨⟩⟩ := Option.ite_none_right_eq_some.mp hstep
    exact h.same rfl rfl rfl rfl (h.controls.same rfl rfl rfl rfl)
  | saveEditor =>
    obtain ⟨hguard, ⟨⟩⟩ := Option.ite_none_right_eq_some.mp hstep
    exact h.saveCatalogEditor (Bool.and_eq_true_iff.mp hguard).1 (hmodal.2 rfl)
  | confirmDelete =>
    obtain ⟨hguard, ⟨⟩⟩ := Option.ite_none_right_eq_some.mp hstep
    exact h.deleteSelectedCatalogItem hguard (hmodal.2 rfl)
  | confirmImport file =>
    obtain ⟨hguard, ⟨⟩⟩ := Option.ite_none_right_eq_some.mp hstep
    simp only [Bool.and_eq_true] at hguard
    obtain ⟨hpc, hresult, -, -⟩ := h.atDialog (by decide) hguard.1.1 (hmodal.2 rfl)
    apply following_closeDialog
    · exact (request_result _ _).trans hresult
    · rw [requestSampleLogImport, request_idle (loading_of_idle hpc)]
      apply h.upToDate.request_importFile hpc
      intro result hwaits
      rw [hresult] at hwaits
      cases hwaits
  | cancel =>
    obtain ⟨hguard, ⟨⟩⟩ := Option.ite_none_right_eq_some.mp hstep
    simp only [Bool.and_eq_true, beq_iff_eq] at hguard
    refine h.same rfl rfl rfl rfl (.of_closed rfl fun hresult => ?_)
    rcases h.controls.flagged hresult with hready | htake | hset
    · exact .inl hready
    · rw [hguard.1.2] at htake
      cases htake
    · exact .inr (.inr hset)

theorem Following.loaderStep {answers : LoaderAnswers} (h : s.Following)
    (hok : ∀ job, s.loader.pc = .work job → answers.Succeed s.file job)
    (hstep : s.loaderStep answers = some t) : t.Following := by
  -- no dialog is open while a thread runs
  have hclosed (hloading : s.loader.loading = true) : s.dialog = .closed := by
    by_contra hopen
    rw [loading_of_idle (h.controls.idle hopen)] at hloading
    cases hloading
  rw [AppState.loaderStep] at hstep
  cases hpc : s.loader.pc with
  | idle => simp [hpc] at hstep
  | work job =>
    simp only [hpc] at hstep
    cases hstep
    refine ⟨.of_closed (hclosed (by rw [CatalogLoader.loading, hpc])) fun hresult => ?_,
      h.upToDate.run_job hpc (hok job hpc)⟩
    exact (h.controls.flagged_of_ne (by simp [hpc]) hresult).imp_right .inl
  | publish result =>
    simp only [hpc] at hstep
    cases hstep
    exact ⟨.of_closed (hclosed (by rw [CatalogLoader.loading, hpc])) fun _ => .inr (.inr rfl),
      h.upToDate.publish hpc⟩
  | setReady =>
    simp only [hpc] at hstep
    cases hstep
    exact ⟨.of_closed (hclosed (by rw [CatalogLoader.loading, hpc])) fun _ => .inl rfl,
      h.upToDate.finish (.inl hpc) (.inl rfl)⟩
  | clearLoading =>
    simp only [hpc] at hstep
    cases hstep
    refine ⟨.of_closed (hclosed (by rw [CatalogLoader.loading, hpc])) fun hresult => ?_,
      h.upToDate.finish (.inr hpc) (.inr rfl)⟩
    exact (h.controls.flagged_of_ne (by simp [hpc]) hresult).imp_right .inl

/-- A step whose job succeeds and whose import finds nothing waiting, where dialogs are modal. -/
structure FollowingStep (windows : Bool) (s : AppState) (action : AppAction) : Prop where
  jobs : s.JobsSucceed action
  shown : s.ImportsShown windows action
  modal : s.Modal action

theorem following_step {file : List LogTemplate} {action : AppAction} (h : s.Following)
    (hok : FollowingStep windows s action)
    (hstep : (catalogApp windows file).step s action = some t) : t.Following := by
  cases action with
  | ui action => exact h.uiStep hok.shown hok.modal hstep
  | loader answers => exact h.loaderStep hok.jobs hstep
  | tokenizer answer =>
    obtain ⟨tokenizer, -, rfl⟩ := Option.map_eq_some_iff.mp hstep
    exact h.same rfl rfl rfl rfl (h.controls.same rfl rfl rfl rfl)

theorem following_initial (windows : Bool) (file : List LogTemplate) :
    (catalogApp windows file).initial.Following := by
  refine ⟨.of_closed rfl fun hresult => absurd rfl hresult, ?_⟩
  refine ⟨.nil, .inr (.inr (.inr rfl)), .inl (.refl file), ?_, ?_, ?_, ?_⟩
  · intro saved hsave
    cases hsave
  · intro path base hbase
    cases hbase
  · intro result hpublish
    cases hpublish
  · intro result hresult
    cases hresult

end AppState

/-- As long as dialogs are modal and every import that begins at once finds no result waiting that
would change the list, the window and the file are in step whenever no loader runs and no result
waits. -/
theorem catalog_inStep {file : List LogTemplate} {s : AppState} {windows : Bool}
    (h : (catalogApp windows file).Steps (AppState.FollowingStep windows)
      (catalogApp windows file).initial s) (hquiet : s.Quiet) : s.InStep := by
  have hfollowing : s.Following := by
    apply h.invariant (AppState.following_initial windows file)
    intro s action t hs hok hstep
    exact AppState.following_step hs hok hstep
  exact hfollowing.inStep hquiet

/-- The loader thread is outside its job, an import finds the slot empty, and no dialog keeps the
widget from being used. -/
def unhurried (s : AppState) (action : AppAction) : Bool :=
  decide (s.Modal action) &&
    match action with
    | .loader _ =>
      match s.loader.pc with
      | .work _ => false
      | _ => true
    | .ui (.importCsv _) => s.loader.result.isNone
    | _ => true

theorem followingStep_of_unhurried {windows : Bool} {s : AppState} {action : AppAction}
    (h : unhurried s action = true) : AppState.FollowingStep windows s action := by
  obtain ⟨hmodal, hrest⟩ := Bool.and_eq_true_iff.mp h
  refine ⟨?_, ?_, of_decide_eq_true hmodal⟩
  · cases action with
    | loader answers =>
      intro job hjob
      simp [hjob] at hrest
    | _ => trivial
  · rintro file rfl - result hresult
    simp [hresult] at hrest

/-- A job that succeeds, as a step. -/
theorem steps_run {windows : Bool} {catalog : List LogTemplate} {s t : AppState}
    {answers : LoaderAnswers} {job : CatalogJob} (hpc : s.loader.pc = .work job)
    (hok : answers.Succeed s.file job)
    (hstep : (catalogApp windows catalog).step s (.loader answers) = some t) :
    (catalogApp windows catalog).Steps (AppState.FollowingStep windows) s t := by
  apply Machine.Steps.single _ _ hstep
  refine ⟨?_, ?_, trivial⟩
  · intro job' hjob
    rw [hpc] at hjob
    cases hjob
    exact hok
  · rintro file ⟨⟩

def firstSample : LogTemplate := { id := bytes "0001", sample := bytes "a" }

def loadAnswers : LoaderAnswers := { loaded := .ok [LogRenderer.tokenizeTemplate firstSample] }

theorem loadAnswers_succeed : loadAnswers.Succeed [firstSample] .load := by
  refine ⟨fun _ => rfl, rfl, ?_, rfl⟩
  intro path items hjob
  cases hjob

def importAnswers : LoaderAnswers := { samples := .ok [bytes "b"] }

theorem importAnswers_succeed {file base : List LogTemplate}
    (hloads : ∃ tokenized, SampleLogImportService.importFile (bytes "b.csv") importAnswers.samples
      importAnswers.tokenized base = .ok tokenized)
    (herror : (CatalogJob.run importAnswers (.importFile (bytes "b.csv") base)).result.error = []) :
    importAnswers.Succeed file (.importFile (bytes "b.csv") base) where
  loaded hjob := by cases hjob
  saved := rfl
  imported path items hjob := by
    cases hjob
    exact hloads
  error := herror

/-- The loader behind its job. -/
def loaderEnds : List AppAction := List.replicate 3 (.loader {})

/-- The list after the load, up to the import that begins then. -/
def untilImport : List AppAction := loaderEnds ++ [.ui .next, .ui .next,
  .ui (.importCsv (bytes "b.csv"))]

/-- The next frame up to the list it shows. -/
def untilShown : List AppAction := List.replicate 6 (.ui .next)

theorem catalog_inStep_imported : ∃ s : AppState, s.views.items.length = 2 ∧ s.InStep := by
  have hrest (s : AppState) (actions : List AppAction) {t : AppState}
      (hexec : (catalogApp true [firstSample]).execWhile unhurried s actions = some t) :
      (catalogApp true [firstSample]).Steps (AppState.FollowingStep true) s t :=
    .of_execWhile (fun _ _ _ => followingStep_of_unhurried) hexec
  have hload : (catalogApp true [firstSample]).Steps (AppState.FollowingStep true)
      (catalogApp true [firstSample]).initial _ := steps_run rfl loadAnswers_succeed rfl
  have hbegun := hload.trans (hrest _ untilImport rfl)
  have himported := hbegun.trans (steps_run rfl (importAnswers_succeed ⟨_, rfl⟩ rfl) rfl)
  have hshown := himported.trans (hrest _ (loaderEnds ++ untilShown) rfl)
  exact ⟨_, rfl, catalog_inStep hshown ⟨rfl, rfl⟩⟩

/-- Two imports of one sample each, the second in the frame in which the first one ends: its
list is the one from before the first. -/
theorem catalog_losesImport : ¬ ∀ file s,
    (catalogApp true file).Steps (fun s action => s.JobsSucceed action ∧ s.Modal action)
      (catalogApp true file).initial s → s.Quiet → s.InStep := by
  intro h
  have hrest (s : AppState) (actions : List AppAction) {t : AppState}
      (hexec : (catalogApp true [firstSample]).execWhile unhurried s actions = some t) :
      (catalogApp true [firstSample]).Steps (AppState.FollowingStep true) s t :=
    .of_execWhile (fun _ _ _ => followingStep_of_unhurried) hexec
  have hload : (catalogApp true [firstSample]).Steps (AppState.FollowingStep true)
      (catalogApp true [firstSample]).initial _ := steps_run rfl loadAnswers_succeed rfl
  have hbegun := hload.trans (hrest _ untilImport rfl)
  have himported := hbegun.trans (steps_run rfl (importAnswers_succeed ⟨_, rfl⟩ rfl) rfl)
  have hended := himported.trans (hrest _ loaderEnds rfl)
  -- the first result still waits
  have hforget {s t : AppState} (hsteps : (catalogApp true [firstSample]).Steps
      (AppState.FollowingStep true) s t) :
      (catalogApp true [firstSample]).Steps
        (fun s action => s.JobsSucceed action ∧ s.Modal action) s t :=
    hsteps.mono fun _ _ hok => ⟨hok.jobs, hok.modal⟩
  have hagain := (hforget hended).trans
    (.single (.ui (.importCsv (bytes "b.csv"))) ⟨trivial, fun _ => rfl, fun h => by cases h⟩ rfl)
  have hsecond := hagain.trans
    (hforget (steps_run rfl (importAnswers_succeed ⟨_, rfl⟩ rfl) rfl))
  have hlast := hsecond.trans (hforget (hrest _ (loaderEnds ++ untilShown) rfl))
  have hinStep := h [firstSample] _ hlast ⟨rfl, rfl⟩
  have hlength : 2 = 3 := hinStep.items.length_eq
  omega

end Presentation
end LogGenerator
