import LogGenerator.Application.SampleLogImportService

/-!
# The catalog service on files

`load` and `save` of the service tokenize every item on its way from the catalog and back.
Whatever fails on the way of a `save`, the catalog file can be read as before.
-/

namespace LogGenerator

open Ascii

/-- A sequence of two calls returns when both do. -/
theorem exists_of_bind_ok {ε α β : Type} {first : Except ε α} {next : α → Except ε β} {b : β}
    (h : first >>= next = .ok b) : ∃ a, first = .ok a ∧ next a = .ok b := by
  cases first with
  | error e => cases h
  | ok a => exact ⟨a, rfl, h⟩

namespace Infrastructure
namespace JsonLogCatalog

open Application Domain

variable {L : JsonLibrary} {file : Bytes} {items : List LogTemplate} {io : SaveIo}
  {before after files : Files}

/-- A `save` that fails leaves the file alone. -/
theorem save_error {failure : Failure} (h : save L file items io before = (.error failure, after)) :
    after file = before file := by
  have hne := temporaryPathFor_ne file io
  by_cases hbegins : Begins items io
  · rw [save_of_begins L file hbegins, replaceWith] at h
    split at h
    · cases h
      exact Function.update_of_ne hne _ _
    · split at h
      · cases h
        exact Function.update_of_ne hne _ _
      · split at h
        · cases h
        · cases h
          exact Function.update_of_ne hne _ _
  · obtain ⟨_, hfailure⟩ := save_of_not_begins L file hbegins before
    rw [hfailure] at h
    cases h
    rfl

/-- What a `save` has written reads back when every token has a name. -/
theorem load_written (hlaw : L.LawfulAt (rootJson (items.map itemJson)))
    (hnamed : ∀ item ∈ items, TokensNamed item) (h : save L file items io before = (.ok (), after)) :
    load L file after = .ok items := by
  obtain ⟨hvalid, text, htext, rfl⟩ := save_ok h
  obtain ⟨logs, hlogs⟩ := (savedItems_iff file []).mpr ⟨hvalid, fun _ _ => List.not_mem_nil⟩
  have hloaded := (loadItems_savedItems hlogs).mpr hnamed
  unfold load
  rw [Function.update_self]
  simp only [hlaw.parse_dump text (isValue_rootJson items) htext, loadRoot_rootJson]
  rwa [← savedItems_eq hlogs]

/-- Reading depends on one file. -/
theorem load_congr (h : after file = before file) : load L file after = load L file before := by
  unfold load
  rw [h]

theorem readTokens_named {entries : List (Bytes × Json)} {testCase result : LogTestCase}
    (hnamed : ∀ entry ∈ testCase.values, entry.1 ≠ [])
    (h : readTokens file entries testCase = .ok result) : ∀ entry ∈ result.values, entry.1 ≠ [] := by
  induction entries generalizing testCase with
  | nil =>
    cases h
    exact hnamed
  | cons entry entries ih =>
    obtain ⟨token, value⟩ := entry
    cases value with
    | array values =>
      unfold readTokens at h
      split_ifs at h with htoken
      split at h
      · cases h
      · apply ih _ h
        intro entry hmem
        rcases SortedEntries.mem_insert hmem with rfl | hmem
        · exact htoken
        · exact hnamed entry hmem
    | null | boolean | number | real | string | object => cases h

theorem readTestCase_named {value : Json} {testCase : LogTestCase}
    (h : readTestCase value file = .ok testCase) : ∀ entry ∈ testCase.values, entry.1 ≠ [] := by
  unfold readTestCase at h
  split at h
  · cases h
    apply List.forall_mem_nil
  · exact readTokens_named (List.forall_mem_nil _) h
  · cases h

theorem readItem_named {value : Json} {item : LogTemplate} (h : readItem value file = .ok item) :
    TokensNamed item := by
  unfold readItem at h
  split at h
  · obtain ⟨id, -, h⟩ := exists_of_bind_ok h
    obtain ⟨name, -, h⟩ := exists_of_bind_ok h
    obtain ⟨sample, -, h⟩ := exists_of_bind_ok h
    obtain ⟨source, -, h⟩ := exists_of_bind_ok h
    obtain ⟨testCase, htestCase, h⟩ := exists_of_bind_ok h
    cases h
    exact readTestCase_named htestCase
  · cases h

theorem loadItems_named {identifiers : List Bytes} {values : List Json}
    (h : loadItems file identifiers values = .ok items) : ∀ item ∈ items, TokensNamed item := by
  induction values generalizing identifiers items with
  | nil =>
    cases h
    apply List.forall_mem_nil
  | cons value values ih =>
    unfold loadItems at h
    obtain ⟨item, hitem, h⟩ := exists_of_bind_ok h
    obtain ⟨-, -, h⟩ := exists_of_bind_ok h
    obtain ⟨rest, hrest, h⟩ := exists_of_bind_ok h
    cases h
    rw [List.forall_mem_cons]
    exact ⟨readItem_named hitem, ih hrest⟩

/-- What is loaded can be written and read back. -/
theorem load_named (h : load L file files = .ok items) : ∀ item ∈ items, TokensNamed item := by
  unfold load at h
  split at h
  · cases h
  split at h
  · cases h
  unfold loadRoot at h
  split at h
  · obtain ⟨version, -, h⟩ := exists_of_bind_ok h
    split_ifs at h
    split at h
    · exact loadItems_named h
    · cases h
  · cases h

end JsonLogCatalog
end Infrastructure

namespace Application
namespace LogCatalogService

open Domain Infrastructure

variable {L : JsonLibrary} {file : Bytes} {items tokenized : List LogTemplate}
  {analyses : ℕ → Except Failure LogTemplateAnalysis} {index : ℕ} {io : JsonLogCatalog.SaveIo}
  {before after files : Files}

/-- The loops that pass each item through `tokenize_and_cache`; `analyses` answers the calls. -/
def tokenizeItems (analyses : ℕ → Except Failure LogTemplateAnalysis) :
    ℕ → List LogTemplate → Except Failure (List LogTemplate)
  | _, [] => .ok []
  | index, item :: items => do
    let first ← tokenize (analyses index) item
    let rest ← tokenizeItems analyses (index + 1) items
    return first.item :: rest

def load (L : JsonLibrary) (file : Bytes) (analyses : ℕ → Except Failure LogTemplateAnalysis)
    (files : Files) : Except Failure (List LogTemplate) := do
  let items ← JsonLogCatalog.load L file files
  validateIds [] items
  tokenizeItems analyses 0 items

def save (L : JsonLibrary) (file : Bytes) (items : List LogTemplate)
    (analyses : ℕ → Except Failure LogTemplateAnalysis) (io : JsonLogCatalog.SaveIo)
    (files : Files) : Except Failure Unit × Files :=
  match validateIds [] items with
  | .error failure => (.error failure, files)
  | .ok () =>
    match tokenizeItems analyses 0 items with
    | .error failure => (.error failure, files)
    | .ok sanitized => JsonLogCatalog.save L file sanitized io files

theorem tokenizeItems_ok (h : tokenizeItems analyses index items = .ok tokenized) :
    tokenized = items.map LogRenderer.tokenizeTemplate := by
  induction items generalizing index tokenized with
  | nil =>
    cases h
    rfl
  | cons item items ih =>
    unfold tokenizeItems at h
    obtain ⟨first, hfirst, h⟩ := exists_of_bind_ok h
    obtain ⟨rest, hrest, h⟩ := exists_of_bind_ok h
    unfold tokenize at hfirst
    cases hanalysis : analyses index with
    | error failure =>
      rw [hanalysis] at hfirst
      cases hfirst
    | ok analysis =>
      rw [hanalysis] at hfirst
      cases hfirst
      cases h
      rw [List.map_cons, ih hrest]

theorem tokenizeItems_answered
    (h : SampleLogImportService.Answered analyses index items.length) :
    tokenizeItems analyses index items = .ok (items.map LogRenderer.tokenizeTemplate) := by
  induction items generalizing index with
  | nil => rfl
  | cons item items ih =>
    rw [List.length_cons] at h
    obtain ⟨analysis, hanalysis⟩ := h.head
    rw [tokenizeItems, hanalysis, ih h.tail]
    rfl

theorem load_ok (h : load L file analyses files = .ok tokenized) :
    ∃ items, JsonLogCatalog.load L file files = .ok items ∧
      tokenized = items.map LogRenderer.tokenizeTemplate := by
  obtain ⟨items, hitems, h⟩ := exists_of_bind_ok h
  obtain ⟨-, -, h⟩ := exists_of_bind_ok h
  exact ⟨items, hitems, tokenizeItems_ok h⟩

/-- A `save` that returns has written the tokenized items. -/
theorem save_ok (h : save L file items analyses io before = (.ok (), after)) :
    JsonLogCatalog.save L file (items.map LogRenderer.tokenizeTemplate) io before =
      (.ok (), after) := by
  unfold save at h
  split at h
  · cases h
  split at h
  · cases h
  · rename_i htokenized
    rwa [← tokenizeItems_ok htokenized]

/-- One that fails leaves the file alone. -/
theorem save_error {failure : Failure}
    (h : save L file items analyses io before = (.error failure, after)) :
    after file = before file := by
  unfold save at h
  split at h
  · cases h
    rfl
  split at h
  · cases h
    rfl
  · exact JsonLogCatalog.save_error h

end LogCatalogService
end Application
end LogGenerator
