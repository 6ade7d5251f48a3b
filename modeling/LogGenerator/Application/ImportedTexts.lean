import LogGenerator.Application.LogCatalogService
import LogGenerator.Application.TokenizedText

/-!
# Texts of an imported catalog

A file of samples is cut at bytes of ASCII as well. What is imported from a file in UTF-8
can therefore be written to the catalog, after each item is tokenized a second time.
-/

namespace LogGenerator

open Ascii Occurrences Runs

namespace FilePath

variable {path : Bytes}

theorem validUtf8_filename (h : validUtf8 path = true) : validUtf8 (filename path) = true := by
  obtain ⟨run, rest, hpath, hrun, hrest⟩ := exists_run (· ≠ slash) path.reverse
  have hname : filename path = run.reverse := by
    rw [filename, hpath, takeWhile_append hrun hrest]
  have hsplit : path = rest.reverse ++ run.reverse := by
    rw [← List.reverse_append, ← hpath, List.reverse_reverse]
  rw [hname]
  cases rest with
  | nil => rwa [hsplit] at h
  | cons b rest =>
    obtain rfl : b = slash := by simpa using hrest
    rw [hsplit, List.reverse_cons, List.append_assoc] at h
    exact (validUtf8_around (List.cons_ne_nil slash []) (by decide) h).2

theorem validUtf8_stem (h : validUtf8 path = true) : validUtf8 (stem path) = true := by
  have hname := validUtf8_filename h
  unfold stem
  cases hstart : extensionStart (filename path) with
  | none => exact hname
  | some position =>
    unfold extensionStart at hstart
    split_ifs at hstart
    split at hstart
    · rename_i hfind
      obtain rfl := Option.some.inj hstart
      obtain ⟨front, b, behind, hsplit, hlength, hb⟩ := exists_of_findLastOf hfind
      obtain rfl : b = dot := by simpa using hb
      rw [hsplit] at hname ⊢
      simp only
      rw [← Nat.succ_eq_add_one, ← hlength, List.take_left]
      exact (validUtf8_around (List.cons_ne_nil dot []) (by decide) hname).1
    all_goals cases hstart

end FilePath

namespace Infrastructure

open Application CsvText

namespace CsvParser

variable {file rest : Bytes} {value : UInt8} {p p' : CsvParser} {skip : Bool}

/-- What is read is well formed, and so is the open field with what follows it. -/
structure Utf8Fields (p : CsvParser) (rest : Bytes) : Prop where
  rows : ∀ row ∈ p.rows, ∀ field ∈ row, validUtf8 field = true
  row : ∀ field ∈ p.row, validUtf8 field = true
  open_field : validUtf8 (p.field ++ rest) = true

theorem Utf8Fields.push (h : Utf8Fields p (value :: rest)) : Utf8Fields (p.push value) rest where
  rows := h.rows
  row := h.row
  open_field := by
    rw [CsvParser.push, List.append_assoc]
    exact h.open_field

/-- A byte of ASCII ends the text of a field. -/
theorem Utf8Fields.cut (h : Utf8Fields p (value :: rest)) (hvalue : isAscii value = true) :
    validUtf8 p.field = true ∧ validUtf8 rest = true :=
  validUtf8_around (List.cons_ne_nil value []) (List.forall_mem_singleton.mpr hvalue) h.open_field

theorem Utf8Fields.drop (h : Utf8Fields p (value :: rest)) (hvalue : isAscii value = true) :
    Utf8Fields p rest where
  rows := h.rows
  row := h.row
  open_field := by
    obtain ⟨hfield, hrest⟩ := h.cut hvalue
    rwa [validUtf8_append hfield]

/-- A byte of ASCII gives way to another one. -/
theorem Utf8Fields.exchange {other : UInt8} (h : Utf8Fields p (value :: rest))
    (hvalue : isAscii value = true) (hother : isAscii other = true) :
    Utf8Fields p (other :: rest) where
  rows := h.rows
  row := h.row
  open_field := replaces_ascii (List.cons_ne_nil value []) (List.forall_mem_singleton.mpr hvalue)
    (validUtf8_of_isAscii (List.forall_mem_singleton.mpr hother)) rest p.field h.open_field

theorem Utf8Fields.finishField (h : Utf8Fields p (value :: rest)) (hvalue : isAscii value = true) :
    Utf8Fields p.finishField rest := by
  obtain ⟨hfield, hrest⟩ := h.cut hvalue
  refine ⟨h.rows, ?_, hrest⟩
  exact List.forall_mem_append.mpr ⟨h.row, List.forall_mem_singleton.mpr hfield⟩

/-- The row is closed in front of a text that is well formed by itself. -/
theorem Utf8Fields.closeRow (h : Utf8Fields p rest) (hfield : validUtf8 p.field = true) :
    Utf8Fields p.finishRow rest := by
  have hrest := h.open_field
  unfold CsvParser.finishRow
  split_ifs with hstarted
  · rw [validUtf8_append hfield] at hrest
    have hrow : ∀ field ∈ p.finishField.row, validUtf8 field = true :=
      List.forall_mem_append.mpr ⟨h.row, List.forall_mem_singleton.mpr hfield⟩
    refine ⟨?_, List.forall_mem_nil _, hrest⟩
    exact List.forall_mem_append.mpr ⟨h.rows, List.forall_mem_singleton.mpr hrow⟩
  · exact ⟨h.rows, h.row, hrest⟩

theorem Utf8Fields.finishRow (h : Utf8Fields p (value :: rest)) (hvalue : isAscii value = true) :
    Utf8Fields p.finishRow rest := (h.drop hvalue).closeRow (h.cut hvalue).1

/-- One step; a byte that is skipped is one of ASCII. -/
theorem Utf8Fields.step (h : Utf8Fields p (value :: rest))
    (hstep : p.step file value rest.head? = .ok (p', skip)) :
    Utf8Fields p' rest ∧ (skip = true → ∃ b, rest.head? = some b ∧ isAscii b = true) := by
  have hquote : isAscii quote = true := by decide
  have hcomma : isAscii comma = true := by decide
  have hlf : isAscii lf = true := by decide
  have hcr : isAscii cr = true := by decide
  have hbreak (h : value = cr ∨ value = lf) : isAscii value = true := by
    rcases h with rfl | rfl
    · exact hcr
    · exact hlf
  have hnext (b : UInt8) (hb : isAscii b = true) (h : (rest.head? == some b) = true) :
      ∃ b, rest.head? = some b ∧ isAscii b = true := ⟨b, beq_iff_eq.mp h, hb⟩
  unfold CsvParser.step at hstep
  split_ifs at hstep with _ _ hvalue hskip hvalue _ hvalue hvalue hvalue _ hvalue hvalue
  all_goals cases hstep
  · subst hvalue
    exact ⟨h.push, fun _ => ⟨quote, hskip, hquote⟩⟩
  · subst hvalue
    have hdrop := h.drop hquote
    exact ⟨⟨hdrop.rows, hdrop.row, hdrop.open_field⟩, fun h => by cases h⟩
  · subst hvalue
    exact ⟨(h.exchange hcr hlf).push, hnext lf hlf⟩
  · exact ⟨h.push, fun h => by cases h⟩
  · subst hvalue
    have hfinish := h.finishField hcomma
    exact ⟨⟨hfinish.rows, hfinish.row, hfinish.open_field⟩, fun h => by cases h⟩
  · exact ⟨h.finishRow (hbreak hvalue), fun h => hnext lf hlf (Bool.and_eq_true_iff.mp h).2⟩
  · subst hvalue
    have hdrop := h.drop hquote
    exact ⟨⟨hdrop.rows, hdrop.row, hdrop.open_field⟩, fun h => by cases h⟩
  · subst hvalue
    have hfinish := h.finishField hcomma
    exact ⟨⟨hfinish.rows, hfinish.row, hfinish.open_field⟩, fun h => by cases h⟩
  · exact ⟨h.finishRow (hbreak hvalue), fun h => hnext lf hlf (Bool.and_eq_true_iff.mp h).2⟩
  · exact ⟨⟨h.push.rows, h.push.row, h.push.open_field⟩, fun h => by cases h⟩

theorem Utf8Fields.run (h : Utf8Fields p rest)
    (hskip : skip = true → ∃ b, rest.head? = some b ∧ isAscii b = true)
    (hrun : CsvParser.run file skip p rest = .ok p') : Utf8Fields p' [] := by
  induction rest generalizing p skip with
  | nil =>
    cases skip
    all_goals
      unfold CsvParser.run at hrun
      cases hrun
      exact h
  | cons value rest ih =>
    cases skip with
    | true =>
      obtain ⟨b, hb, hascii⟩ := hskip rfl
      obtain rfl := Option.some.inj hb
      exact ih (h.drop hascii) (fun h => by cases h) hrun
    | false =>
      unfold CsvParser.run at hrun
      split at hrun
      · cases hrun
      · rename_i hstep
        obtain ⟨hnext, hskipped⟩ := h.step hstep
        exact ih hnext hskipped hrun

end CsvParser

section Load

variable {file input : Bytes} {rows : List CsvRow} {samples : List Bytes}

theorem validUtf8_parseCsv (hinput : validUtf8 input = true) (h : parseCsv file input = .ok rows) :
    ∀ row ∈ rows, ∀ field ∈ row, validUtf8 field = true := by
  unfold parseCsv at h
  split at h
  · cases h
  · rename_i p hrun
    split_ifs at h
    cases h
    have hstart : CsvParser.Utf8Fields {} input :=
      ⟨List.forall_mem_nil _, List.forall_mem_nil _, hinput⟩
    have hend := hstart.run (fun h => by cases h) hrun
    have hfield := hend.open_field
    rw [List.append_nil] at hfield
    exact (hend.closeRow hfield).rows

namespace CsvSampleLogSource

theorem mem_of_collectSamples {number : ℕ} (h : collectSamples file number rows = .ok samples) :
    ∀ sample ∈ samples, ∃ row ∈ rows, sample ∈ row := by
  induction rows generalizing number samples with
  | nil =>
    cases h
    apply List.forall_mem_nil
  | cons row rows ih =>
    unfold collectSamples at h
    split_ifs at h with hempty
    cases hrest : collectSamples file (number + 1) rows with
    | error failure =>
      rw [hrest] at h
      cases h
    | ok rest =>
      rw [hrest] at h
      cases h
      rw [List.forall_mem_cons]
      constructor
      · cases row with
        | nil => exact absurd rfl hempty
        | cons field row => exact ⟨field :: row, List.mem_cons_self, List.mem_cons_self⟩
      · intro sample hsample
        obtain ⟨other, hother, hmem⟩ := ih hrest sample hsample
        exact ⟨other, List.mem_cons_of_mem row hother, hmem⟩

theorem mem_of_loadRows (h : loadRows file rows = .ok samples) :
    ∀ sample ∈ samples, ∃ row ∈ rows, sample ∈ row := by
  unfold loadRows at h
  simp only [bind, Except.bind, pure, Except.pure] at h
  split at h
  · cases h
  split at h
  · cases h
  split at h
  · cases h
  rename_i samples' hcollect
  split_ifs at h
  cases h
  intro sample hsample
  obtain ⟨row, hrow, hmem⟩ := mem_of_collectSamples hcollect sample hsample
  exact ⟨row, List.mem_of_mem_drop hrow, hmem⟩

/-- The samples of a file in UTF-8, with a byte order mark or without one. -/
theorem validUtf8_load {files : Files} (hcontent : ∀ content ∈ files file, validUtf8 content = true)
    (h : load file files = .ok samples) : ∀ sample ∈ samples, validUtf8 sample = true := by
  unfold load at h
  split_ifs at h
  split at h
  · cases h
  · rename_i content hfile
    have hvalid := hcontent content hfile
    have hbehind : validUtf8 (if utf8Bom.isPrefixOf content then content.drop utf8Bom.length
        else content) = true := by
      split_ifs with hbom
      · obtain ⟨rest, rfl⟩ := List.isPrefixOf_iff_prefix.mp hbom
        have hmark : validUtf8 utf8Bom = true := by decide
        rwa [List.drop_left, ← validUtf8_append hmark]
      · exact hvalid
    simp only at h
    split at h
    · cases h
    · rename_i hparse
      intro sample hsample
      obtain ⟨row, hrow, hmem⟩ := mem_of_loadRows h sample hsample
      exact validUtf8_parseCsv hbehind hparse row hrow sample hmem

end CsvSampleLogSource

end Load

theorem JsonLogCatalog.LeavesClean.temporary {L : JsonLibrary} {file : Bytes}
    {items : List Domain.LogTemplate} {io : JsonLogCatalog.SaveIo} {before : Files}
    (h : JsonLogCatalog.LeavesClean L file items io before) :
    (JsonLogCatalog.save L file items io before).2 (JsonLogCatalog.temporaryPathFor file io) = none ∨
      (JsonLogCatalog.save L file items io before).2 = before := by
  unfold JsonLogCatalog.LeavesClean at h
  cases hsaved : JsonLogCatalog.save L file items io before with
  | mk result after =>
    rw [hsaved] at h
    cases result with
    | ok => exact .inl h.2.1
    | error failure => exact h.2.2

end Infrastructure

namespace Application

open Domain Infrastructure
open JsonLogCatalog (Begins ValidItems itemJson itemTexts replaceFileWithRetry rootJson)

variable {items existing : List LogTemplate} {item : LogTemplate}

/-- Everything that is written of the items is well formed. -/
def Utf8Items (items : List LogTemplate) : Prop :=
  ∀ item ∈ items, ∀ text ∈ itemTexts item, validUtf8 text = true

theorem tokenizeTemplate_source (item : LogTemplate) :
    (LogRenderer.tokenizeTemplate item).source = item.source := by
  rw [LogRenderer.tokenizeTemplate]

theorem tokenizeTemplate_values (item : LogTemplate) :
    (LogRenderer.tokenizeTemplate item).testCase.values =
      item.testCase.values.map fun entry => (entry.1, entry.2.map LogRenderer.tokenize) := by
  rw [LogRenderer.tokenizeTemplate, LogRenderer.tokenizeTestCase]

theorem utf8_tokenizeTemplate (h : ∀ text ∈ itemTexts item, validUtf8 text = true) :
    ∀ text ∈ itemTexts (LogRenderer.tokenizeTemplate item), validUtf8 text = true := by
  simp only [itemTexts, List.forall_mem_append, List.forall_mem_cons, List.mem_flatMap,
    List.not_mem_nil, false_implies, implies_true, and_true, forall_exists_index, and_imp,
    LogRenderer.tokenizeTemplate_id, LogRenderer.tokenizeTemplate_name,
    LogRenderer.tokenizeTemplate_sample, tokenizeTemplate_source, tokenizeTemplate_values] at h ⊢
  obtain ⟨⟨hid, hname, hsample, hsource⟩, hvalues⟩ := h
  refine ⟨⟨hid, hname, LogRenderer.validUtf8_tokenize hsample, hsource⟩, ?_⟩
  intro text entry hentry hmem
  obtain ⟨entry, hmem', rfl⟩ := List.mem_map.mp hentry
  rcases List.mem_cons.mp hmem with rfl | hmem
  · exact hvalues _ entry hmem' List.mem_cons_self
  · obtain ⟨value, hvalue, rfl⟩ := List.mem_map.mp hmem
    exact LogRenderer.validUtf8_tokenize (hvalues value entry hmem' (List.mem_cons_of_mem _ hvalue))

theorem Utf8Items.tokenize (h : Utf8Items items) :
    Utf8Items (items.map LogRenderer.tokenizeTemplate) := by
  unfold Utf8Items
  rw [List.forall_mem_map]
  exact fun item hitem => utf8_tokenizeTemplate (h item hitem)

/-- Tokenized items pass the checks of `save` again. -/
theorem validItems_tokenize (h : ValidItems items) :
    ValidItems (items.map LogRenderer.tokenizeTemplate) := by
  obtain ⟨-, hsaved⟩ := SampleLogImportService.saves_of_validItems [] h
  exact ((JsonLogCatalog.savedItems_iff [] []).mp hsaved).1

/-- What a `save` of the service has to write. -/
def savedRoot (items : List LogTemplate) : Json :=
  rootJson ((items.map LogRenderer.tokenizeTemplate).map itemJson)

/-- A catalog that can be written can be written with its items tokenized, so the tokens that
`save` puts into samples and test cases never tear a character apart. -/
theorem savedRoot_written {L : JsonLibrary} (hlaw : L.LawfulAt (rootJson (items.map itemJson)))
    (hsaved : L.LawfulAt (savedRoot items))
    (h : ∃ text, L.dump (rootJson (items.map itemJson)) = .ok text) :
    ∃ text, L.dump (savedRoot items) = .ok text := by
  have hvalid := (hlaw.dump_iff (JsonLogCatalog.isValue_rootJson items)).mp h
  have hutf8 : Utf8Items items := (JsonLogCatalog.validUtf8_rootJson items).mp hvalid
  apply (hsaved.dump_iff (JsonLogCatalog.isValue_rootJson _)).mpr
  exact (JsonLogCatalog.validUtf8_rootJson _).mpr hutf8.tokenize

def koreanItem : LogTemplate := { id := bytes "0001", name := bytes "로그", sample := bytes "값" }

/-- The written form of the catalog of this item. -/
def koreanText : Bytes :=
  bytes "\x7b\n  \"logs\": [\n    \x7b\n      \"id\": \"0001\",\n      \"name\": \"로그\",\n" ++
    bytes "      \"sample\": \"값\"\n    \x7d\n  ],\n  \"schema_version\": 1\n\x7d"

theorem tokenizeTemplate_koreanItem : LogRenderer.tokenizeTemplate koreanItem = koreanItem := by
  have hsample : LogRenderer.tokenize koreanItem.sample = koreanItem.sample := by decide
  rw [LogRenderer.tokenizeTemplate, hsample]
  rfl

theorem savedRoot_written_korean : ∃ text,
    (JsonLogCatalog.writtenAs (rootJson ([koreanItem].map itemJson)) koreanText).dump
      (savedRoot [koreanItem]) = .ok text := by
  have hroot : savedRoot [koreanItem] = rootJson ([koreanItem].map itemJson) := by
    rw [savedRoot, List.map_singleton, tokenizeTemplate_koreanItem]
  have hutf8 : Utf8Items [koreanItem] := by
    unfold Utf8Items
    decide
  have hlaw := JsonLogCatalog.lawfulAt_writtenAs koreanText
    ((JsonLogCatalog.validUtf8_rootJson [koreanItem]).mpr hutf8)
  exact savedRoot_written hlaw (hroot ▸ hlaw) ⟨koreanText, rfl⟩

namespace SampleLogImportService

open LogCatalogService

variable {file baseName sourceName sample : Bytes} {samples : List Bytes} {index : ℕ}
  {analyses : ℕ → Except Failure LogTemplateAnalysis} {imported : List TokenizedLogTemplate}

theorem isAscii_of_isDigit : ∀ b, isDigit b = true → isAscii b = true := by
  decide

theorem validUtf8_decimal (n : ℕ) : validUtf8 (decimal n) = true :=
  validUtf8_of_isAscii fun b hb => isAscii_of_isDigit b (decimal_isDigit n b hb)

theorem utf8_importedItem (hbase : validUtf8 baseName = true) (hsource : validUtf8 sourceName = true)
    (hsample : validUtf8 sample = true) (index : ℕ) (items : List LogTemplate) :
    ∀ text ∈ itemTexts (importedItem baseName sourceName index items sample),
      validUtf8 text = true := by
  apply utf8_tokenizeTemplate
  have hnumber : validUtf8 (bytes " #") = true := by decide
  have hid : validUtf8 (paddedId (largestId items + 1)) = true := by
    have hdigits := (validSampleId_iff.mp (validSampleId_paddedId (largestId items + 1))).2
    exact validUtf8_of_isAscii fun b hb => isAscii_of_isDigit b (hdigits b hb)
  have hname : validUtf8 (baseName ++ (bytes " #" ++ decimal (index + 1))) = true := by
    rw [validUtf8_append hbase, validUtf8_append hnumber]
    apply validUtf8_decimal
  simp [itemTexts, hid, hname, hsample, hsource]

/-- The items that an import puts behind those there are. -/
theorem importSamples_valid (h : ValidItems items) (hne : ∀ sample ∈ samples, sample ≠ [])
    (hok : importSamples baseName sourceName analyses index items samples = .ok imported) :
    ValidItems (items ++ imported.map (·.item)) ∧ ∀ tokenized ∈ imported, ∃ index items,
      ∃ sample ∈ samples, tokenized.item = importedItem baseName sourceName index items sample := by
  induction samples generalizing index items imported with
  | nil =>
    cases hok
    exact ⟨by rwa [List.map_nil, List.append_nil], List.forall_mem_nil _⟩
  | cons sample samples ih =>
    obtain ⟨hsample, hsamples⟩ := List.forall_mem_cons.mp hne
    by_cases hroom : largestId items < largestSampleId
    · cases hanalysis : analyses index with
      | error failure =>
        simp [importSamples, nextId_ok h hroom, tokenize, hanalysis, bind, Except.bind,
          Except.map] at hok
      | ok analysis =>
        rw [importSamples_cons h hroom hanalysis] at hok
        cases hrest : importSamples baseName sourceName analyses (index + 1)
            (items ++ [importedItem baseName sourceName index items sample]) samples with
        | error failure =>
          rw [hrest] at hok
          cases hok
        | ok rest =>
          rw [hrest] at hok
          cases hok
          obtain ⟨hvalid, hmade⟩ := ih (validItems_append h hsample) hsamples hrest
          rw [List.append_assoc] at hvalid
          refine ⟨hvalid, List.forall_mem_cons.mpr ⟨?_, ?_⟩⟩
          · exact ⟨index, items, sample, List.mem_cons_self, rfl⟩
          · intro tokenized hmem
            obtain ⟨index, items, sample, hin, heq⟩ := hmade tokenized hmem
            exact ⟨index, items, sample, List.mem_cons_of_mem _ hin, heq⟩
    · obtain ⟨failure, hfailure⟩ := nextId_error h (not_lt.mp hroom)
      rw [importSamples, hfailure] at hok
      cases hok

theorem importFile_names (hfile : validUtf8 file = true) (hne : samples ≠ [])
    (analyses : ℕ → Except Failure LogTemplateAnalysis) (items : List LogTemplate) :
    ∃ baseName sourceName, validUtf8 baseName = true ∧ validUtf8 sourceName = true ∧
      importFile file (.ok samples) analyses items =
        importSamples baseName sourceName analyses 0 items samples := by
  have hsource : validUtf8 (bytes "CSV 가져오기: ") = true := by decide
  have hunnamed : validUtf8 (bytes "CSV 샘플 로그") = true := by decide
  unfold importFile
  simp only [bind, Except.bind, if_neg hne]
  refine ⟨_, _, ?_, ?_, rfl⟩
  · split_ifs
    · exact hunnamed
    · exact FilePath.validUtf8_stem hfile
  · rw [validUtf8_append hsource]
    exact FilePath.validUtf8_filename hfile

/-- The catalog that an import leaves. -/
theorem importFile_utf8 {files : Files} (hfile : validUtf8 file = true)
    (hcontent : ∀ content ∈ files file, validUtf8 content = true) (hitems : ValidItems existing)
    (htexts : Utf8Items existing)
    (hok : importFile file (CsvSampleLogSource.load file files) analyses existing = .ok imported) :
    ValidItems (existing ++ imported.map (·.item)) ∧
      Utf8Items (existing ++ imported.map (·.item)) := by
  cases hload : CsvSampleLogSource.load file files with
  | error failure =>
    rw [hload] at hok
    cases hok
  | ok samples =>
    obtain ⟨hne, hsamples⟩ := CsvSampleLogSource.load_ne_nil hload
    obtain ⟨baseName, sourceName, hbase, hsource, himport⟩ :=
      importFile_names hfile hne analyses existing
    rw [hload, himport] at hok
    obtain ⟨hvalid, hmade⟩ := importSamples_valid hitems hsamples hok
    refine ⟨hvalid, List.forall_mem_append.mpr ⟨htexts, ?_⟩⟩
    rw [List.forall_mem_map]
    intro tokenized hmem
    obtain ⟨index, items, sample, hsample, heq⟩ := hmade tokenized hmem
    rw [heq]
    exact utf8_importedItem hbase hsource
      (CsvSampleLogSource.validUtf8_load hcontent hload sample hsample) index items

/-- After an import from a file in UTF-8, as long as no write to the temporary file fails and
removing it is not refused: a save of the new catalog leaves no temporary file behind, and it
succeeds unless the analysis throws or the system refuses a directory, the temporary file or the
replacement. -/
theorem importFile_saved {files : Files} (hfile : validUtf8 file = true)
    (hcontent : ∀ content ∈ files file, validUtf8 content = true) (hitems : ValidItems existing)
    (htexts : Utf8Items existing)
    (hok : importFile file (CsvSampleLogSource.load file files) analyses existing = .ok imported)
    (L : JsonLibrary) (catalog : Bytes) (answers : ℕ → Except Failure LogTemplateAnalysis)
    (io : JsonLogCatalog.SaveIo) (before : Files)
    (hlaw : L.LawfulAt (savedRoot (existing ++ imported.map (·.item))))
    (hlimit : io.writeLimit = none) (hremoved : io.removed = true) :
    let items := existing ++ imported.map (·.item)
    let saved := save L catalog items answers io before
    (saved.2 (JsonLogCatalog.temporaryPathFor catalog io) = none ∨ saved.2 = before) ∧
      (Answered answers 0 items.length → io.parentError = none → io.opened = true →
        replaceFileWithRetry io = none → saved.1 = .ok ()) := by
  intro items saved
  unfold savedRoot at hlaw
  obtain ⟨hvalid, hutf8⟩ := importFile_utf8 hfile hcontent hitems htexts hok
  have hwritable : JsonLogCatalog.Writable (items.map LogRenderer.tokenizeTemplate) io :=
    fun _ => ⟨hutf8.tokenize, hlimit⟩
  have hchecked : validateIds [] items = .ok () := (saves_of_validItems [] hvalid).1
  simp only [saved, save, hchecked]
  cases htokenized : tokenizeItems answers 0 items with
  | error failure =>
    refine ⟨.inr rfl, fun hanswered => ?_⟩
    rw [tokenizeItems_answered hanswered] at htokenized
    cases htokenized
  | ok sanitized =>
    obtain rfl := tokenizeItems_ok htokenized
    constructor
    · exact (JsonLogCatalog.leavesClean_of_writable before hlaw hremoved hwritable).temporary
    · intro _ hparent hopened hreplaced
      obtain ⟨text, htext⟩ := (hlaw.dump_iff (JsonLogCatalog.isValue_rootJson _)).mpr
        ((JsonLogCatalog.validUtf8_rootJson _).mpr hutf8.tokenize)
      simp only
      rw [JsonLogCatalog.save_of_begins L catalog ⟨validItems_tokenize hvalid, hparent, hopened⟩,
        JsonLogCatalog.replaceWith, htext, hlimit, hreplaced]

/-- An entry of the catalog, and the two that are imported from `a.csv` beside it. -/
def presentValue : LogTemplate :=
  { id := bytes "0001", name := bytes "a", sample := bytes "b", source := bytes "b.csv" }

def importedValue (id name sample : Bytes) : LogTemplate :=
  { id := id, name := name, sample := sample, source := bytes "CSV 가져오기: a.csv" }

def importedValues : List LogTemplate :=
  [importedValue (bytes "0002") (bytes "a #1") (bytes "값"),
    importedValue (bytes "0003") (bytes "a #2") (bytes "둘")]

/-- The catalog with all three as it is written. -/
def importedText : Bytes :=
  bytes "\x7b\n  \"logs\": [\n    \x7b\n      \"id\": \"0001\",\n      \"name\": \"a\",\n" ++
    bytes "      \"sample\": \"b\",\n      \"source\": \"b.csv\"\n    \x7d,\n" ++
    bytes "    \x7b\n      \"id\": \"0002\",\n      \"name\": \"a #1\",\n" ++
    bytes "      \"sample\": \"값\",\n      \"source\": \"CSV 가져오기: a.csv\"\n    \x7d,\n" ++
    bytes "    \x7b\n      \"id\": \"0003\",\n      \"name\": \"a #2\",\n" ++
    bytes "      \"sample\": \"둘\",\n      \"source\": \"CSV 가져오기: a.csv\"\n    \x7d\n  ],\n" ++
    bytes "  \"schema_version\": 1\n\x7d"

theorem importFile_saved_korean :
    (save (JsonLogCatalog.writtenAs (savedRoot (presentValue :: importedValues)) importedText)
      (bytes "logs.json") (presentValue :: importedValues) (fun _ => .ok {}) {} fun _ => none).1 =
        .ok () := by
  have hvalid : ValidItems [presentValue] := by
    constructor
    · rw [List.forall_mem_singleton]
      decide
    · decide
  have hok : importFile (bytes "a.csv") (CsvSampleLogSource.load (bytes "a.csv")
      fun _ => some (bytes "sample\n값\n둘")) (fun _ => .ok {}) [presentValue] =
        .ok (importedValues.map (⟨·, {}⟩)) := by
    have hload : CsvSampleLogSource.load (bytes "a.csv")
        (fun _ => some (bytes "sample\n값\n둘")) = .ok [bytes "값", bytes "둘"] := by decide
    have himported {sample : Bytes} (index : ℕ) (items : List LogTemplate)
        (hsample : LogRenderer.tokenize sample = sample) :
        importedItem (bytes "a") (bytes "CSV 가져오기: a.csv") index items sample =
          importedValue (paddedId (largestId items + 1))
            (bytes "a" ++ bytes " #" ++ decimal (index + 1)) sample := by
      rw [importedItem, LogRenderer.tokenizeTemplate]
      simp only [hsample]
      rfl
    have hfirst : LogRenderer.tokenize (bytes "값") = bytes "값" := by decide
    have hsecond : LogRenderer.tokenize (bytes "둘") = bytes "둘" := by decide
    have hnext : ValidItems ([presentValue] ++
        [importedItem (bytes "a") (bytes "CSV 가져오기: a.csv") 0 [presentValue] (bytes "값")]) :=
      validItems_append hvalid (by decide)
    have hsamples : importSamples (bytes "a") (bytes "CSV 가져오기: a.csv") (fun _ => .ok {}) 0
        [presentValue] [bytes "값", bytes "둘"] = .ok (importedValues.map (⟨·, {}⟩)) := by
      rw [importSamples_cons hvalid (by decide) rfl, importSamples_cons hnext _ rfl,
        himported 0 [presentValue] hfirst, himported 1 _ hsecond]
      · rfl
      · rw [himported 0 [presentValue] hfirst]
        decide
    rw [hload]
    exact hsamples
  have htexts : Utf8Items [presentValue] := by
    unfold Utf8Items
    decide
  have hsaved : Utf8Items ((presentValue :: importedValues).map LogRenderer.tokenizeTemplate) :=
    Utf8Items.tokenize (by unfold Utf8Items; decide)
  have hlaw := JsonLogCatalog.lawfulAt_writtenAs importedText
    ((JsonLogCatalog.validUtf8_rootJson _).mpr hsaved)
  exact (importFile_saved (by decide) (by decide) hvalid htexts hok _ (bytes "logs.json")
    (fun _ => .ok {}) {} (fun _ => none) hlaw rfl rfl).2 (fun _ _ _ => ⟨{}, rfl⟩) rfl rfl rfl

end SampleLogImportService

end Application
end LogGenerator
