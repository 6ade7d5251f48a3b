import LogGenerator.Foundation.CsvText
import LogGenerator.Foundation.FilePath
import LogGenerator.Infrastructure.JsonLogCatalog
import Mathlib.Data.List.TakeWhile

/-!
# The CSV source of samples

`parse_csv` byte by byte, with one byte of look-ahead, and the checks of `load`.
-/

namespace LogGenerator
namespace Infrastructure

open Ascii Application CsvText

abbrev CsvRow := List Bytes

def csvError (file message : Bytes) : Failure :=
  .exception (bytes "CSV 샘플 로그 파일 '" ++ file ++ bytes "': " ++ message)

structure CsvParser where
  rows : List CsvRow := []
  row : CsvRow := []
  field : Bytes := []
  quoted : Bool := false
  quoteClosed : Bool := false
  rowStarted : Bool := false

namespace CsvParser

def push (p : CsvParser) (value : UInt8) : CsvParser := { p with field := p.field ++ [value] }

def finishField (p : CsvParser) : CsvParser :=
  { p with
    row := p.row ++ [p.field]
    field := []
    quoteClosed := false }

def finishRow (p : CsvParser) : CsvParser :=
  if p.rowStarted = true ∨ p.field ≠ [] ∨ p.row ≠ [] ∨ p.quoteClosed = true then
    { p.finishField with
      rows := p.rows ++ [p.finishField.row]
      row := []
      rowStarted := false }
  else { p with rowStarted := false, quoteClosed := false }

/-- The body of the loop, with the next byte if there is one; the flag says that it is skipped. -/
def step (file : Bytes) (p : CsvParser) (value : UInt8) (next : Option UInt8) :
    Except Failure (CsvParser × Bool) :=
  if value = 0 then .error (csvError file (bytes "NUL 문자는 사용할 수 없습니다."))
  else if p.quoted then
    if value = quote then
      if next = some quote then .ok (p.push quote, true)
      else .ok ({ p with quoted := false, quoteClosed := true }, false)
    else if value = cr then .ok (p.push lf, next == some lf)
    else .ok (p.push value, false)
  else if p.quoteClosed then
    if value = comma then .ok ({ p.finishField with rowStarted := true }, false)
    else if value = cr ∨ value = lf then .ok (p.finishRow, value == cr && next == some lf)
    else .error (csvError file (bytes "닫는 따옴표 뒤에는 쉼표 또는 줄바꿈만 올 수 있습니다."))
  else if value = quote then
    if p.field ≠ [] then
      .error (csvError file (bytes "따옴표로 묶은 값은 필드의 첫 문자에서 시작해야 합니다."))
    else .ok ({ p with quoted := true, rowStarted := true }, false)
  else if value = comma then .ok ({ p.finishField with rowStarted := true }, false)
  else if value = cr ∨ value = lf then .ok (p.finishRow, value == cr && next == some lf)
  else .ok ({ p.push value with rowStarted := true }, false)

/-- The loop; with the flag set, the next byte is skipped. -/
def run (file : Bytes) : Bool → CsvParser → Bytes → Except Failure CsvParser
  | _, p, [] => .ok p
  | true, p, _ :: rest => run file false p rest
  | false, p, value :: rest =>
    match p.step file value rest.head? with
    | .error failure => .error failure
    | .ok (p, skip) => run file skip p rest

end CsvParser

def parseCsv (file input : Bytes) : Except Failure (List CsvRow) :=
  match CsvParser.run file false {} input with
  | .error failure => .error failure
  | .ok p =>
    if p.quoted then .error (csvError file (bytes "따옴표로 묶은 필드가 닫히지 않았습니다."))
    else .ok p.finishRow.rows

def isBlank (b : UInt8) : Bool := b == space || b == tab

def headerNames : List Bytes :=
  [bytes "sample", bytes "sample_log", bytes "샘플로그", bytes "샘플 로그"]

def isOptionalHeader (value : Bytes) : Bool :=
  let trimmed := ((value.dropWhile isBlank).reverse.dropWhile isBlank).reverse
  trimmed ≠ [] && headerNames.contains (trimmed.map toLower)

def utf8Bom : Bytes := [0xEF, 0xBB, 0xBF]

namespace CsvSampleLogSource

/-- The loop of `load` that counts columns; rows are numbered from one. -/
def checkColumns (file : Bytes) : ℕ → List CsvRow → Except Failure Unit
  | _, [] => .ok ()
  | number, row :: rows =>
    if row.length ≠ 1 then
      .error (csvError file (decimal number ++ bytes "행의 컬럼 수가 " ++ decimal row.length ++
        bytes "개입니다. CSV는 정확히 1개 컬럼이어야 합니다."))
    else checkColumns file (number + 1) rows

/-- The loop of `load` that collects the samples. -/
def collectSamples (file : Bytes) : ℕ → List CsvRow → Except Failure (List Bytes)
  | _, [] => .ok []
  | number, row :: rows =>
    if row.headD [] = [] then
      .error (csvError file (decimal number ++ bytes "행의 샘플 로그가 비어 있습니다."))
    else (collectSamples file (number + 1) rows).map (row.headD [] :: ·)

def loadRows (file : Bytes) (rows : List CsvRow) : Except Failure (List Bytes) := do
  if rows = [] then .error (csvError file (bytes "가져올 데이터가 없습니다."))
  checkColumns file 1 rows
  let firstSample := if isOptionalHeader ((rows.headD []).headD []) then 1 else 0
  let samples ← collectSamples file (firstSample + 1) (rows.drop firstSample)
  if samples = [] then .error (csvError file (bytes "가져올 샘플 로그가 없습니다."))
  return samples

def load (file : Bytes) (files : Files) : Except Failure (List Bytes) :=
  if (FilePath.extension file).map toLower ≠ bytes ".csv" then
    .error (csvError file (bytes "확장자가 .csv인 파일만 가져올 수 있습니다."))
  else
    match files file with
    | none => .error (csvError file (bytes "파일을 열 수 없습니다."))
    | some content =>
      let content := if utf8Bom.isPrefixOf content then content.drop utf8Bom.length else content
      match parseCsv file content with
      | .error failure => .error failure
      | .ok rows => loadRows file rows

end CsvSampleLogSource
/-- Neither NUL nor a carriage return. -/
def Plain (value : Bytes) : Prop := ∀ b ∈ value, b ≠ 0 ∧ b ≠ cr

namespace CsvParser

/-- Between two records. -/
def between (rows : List CsvRow) : CsvParser := { rows := rows }

/-- After the only field of a record. -/
structure Holds (rows : List CsvRow) (value : Bytes) (p : CsvParser) : Prop where
  rows : p.rows = rows
  row : p.row = []
  field : p.field = value
  quoted : p.quoted = false
  rowStarted : p.rowStarted = true

variable {file : Bytes} {p p' : CsvParser} {value rest : Bytes} {b : UInt8} {rows : List CsvRow}
  {skip : Bool}

theorem run_of_step (h : p.step file b rest.head? = .ok (p', skip)) :
    run file false p (b :: rest) = run file skip p' rest := by
  rw [run, h]

theorem finishRow_between (rows : List CsvRow) : (between rows).finishRow = between rows := by
  unfold finishRow between
  rw [if_neg (by simp)]

theorem Holds.finishRow (h : p.Holds rows value) : p.finishRow = between (rows ++ [[value]]) := by
  unfold CsvParser.finishRow
  rw [if_pos (.inl h.rowStarted)]
  simp [finishField, between, h.rows, h.row, h.field, h.quoted]

/-- Between quotes. -/
theorem run_quotedText {text : Bytes} (h : QuotedText value text) (hplain : Plain value)
    (hquoted : p.quoted = true) (rest : Bytes) :
    run file false p (text ++ rest) = run file false { p with field := p.field ++ value } rest := by
  induction h generalizing p with
  | nil => simp
  | @quote value text _ ih =>
    have hstep : p.step file quote ((quote :: (text ++ rest)).head?) = .ok (p.push quote, true) := by
      simp [step, hquoted, quote]
    have hrest := ih (p := p.push quote) (fun b hb => hplain b (List.mem_cons_of_mem _ hb)) hquoted
    simp only [List.cons_append]
    rw [run_of_step hstep, run, hrest]
    simp [push]
  | @lf value text _ ih =>
    have hstep : p.step file lf (text ++ rest).head? = .ok (p.push lf, false) := by
      simp [step, hquoted, quote, lf, cr]
    have hrest := ih (p := p.push lf) (fun b hb => hplain b (List.mem_cons_of_mem _ hb)) hquoted
    simp only [List.cons_append]
    rw [run_of_step hstep, hrest]
    simp [push]
  | @crlf value text _ ih =>
    have hstep : p.step file cr ((lf :: (text ++ rest)).head?) = .ok (p.push lf, true) := by
      simp [step, hquoted, quote, cr]
    have hrest := ih (p := p.push lf) (fun b hb => hplain b (List.mem_cons_of_mem _ hb)) hquoted
    simp only [List.cons_append]
    rw [run_of_step hstep, run, hrest]
    simp [push]
  | @other b value text hquote hlf _ ih =>
    obtain ⟨hnul, hcr⟩ := hplain b List.mem_cons_self
    have hstep : p.step file b (text ++ rest).head? = .ok (p.push b, false) := by
      simp [step, hquoted, hquote, hnul, hcr]
    have hrest := ih (p := p.push b) (fun c hc => hplain c (List.mem_cons_of_mem _ hc)) hquoted
    simp only [List.cons_append]
    rw [run_of_step hstep, hrest]
    simp [push]

theorem run_bare (h : Bare value) (hplain : Plain value) (hquoted : p.quoted = false)
    (hclosed : p.quoteClosed = false) (rest : Bytes) :
    run file false p (value ++ rest) = run file false
      { p with
        field := p.field ++ value
        rowStarted := if value = [] then p.rowStarted else true } rest := by
  induction value generalizing p with
  | nil => simp
  | cons b value ih =>
    obtain ⟨hcomma, hquote, hlf⟩ := h b List.mem_cons_self
    obtain ⟨hnul, hcr⟩ := hplain b List.mem_cons_self
    have hstep : p.step file b (value ++ rest).head? =
        .ok ({ p.push b with rowStarted := true }, false) := by
      simp [step, hquoted, hclosed, hquote, hnul, hcr, hlf, hcomma]
    have hrest := ih (p := { p.push b with rowStarted := true })
      (fun c hc => h c (List.mem_cons_of_mem _ hc))
      (fun c hc => hplain c (List.mem_cons_of_mem _ hc)) hquoted hclosed
    rw [List.cons_append, run_of_step hstep, hrest]
    simp [push]

theorem run_fieldText (file : Bytes) {text : Bytes} (h : FieldText value text) (hplain : Plain value)
    (hne : value ≠ []) (rows : List CsvRow) (hrest : rest.head? ≠ some quote) :
    ∃ p, p.Holds rows value ∧
      run file false (between rows) (text ++ rest) = run file false p rest := by
  cases h with
  | bare h =>
    refine ⟨_, ?_, run_bare h hplain rfl rfl rest⟩
    exact ⟨rfl, rfl, rfl, rfl, if_neg hne⟩
  | @quoted text h =>
    have hopen : (between rows).step file quote (text ++ ([quote] ++ rest)).head? =
        .ok ({ between rows with
          quoted := true
          rowStarted := true }, false) := by
      simp [step, between, quote]
    have hclose : step file
        { between rows with
          field := value
          quoted := true
          rowStarted := true } quote rest.head? =
        .ok ({ between rows with
          field := value
          quoteClosed := true
          rowStarted := true }, false) := by
      have hnext : rest.head? ≠ some 34 := hrest
      simp [step, between, quote, hnext]
    let held : CsvParser :=
      { between rows with
        field := value
        quoteClosed := true
        rowStarted := true }
    refine ⟨held, ⟨rfl, rfl, rfl, rfl, rfl⟩, ?_⟩
    rw [List.cons_append, List.append_assoc, run_of_step hopen, run_quotedText h hplain rfl]
    exact run_of_step hclose

/-- Blank lines leave nothing; the line feed after a carriage return may be skipped. -/
theorem run_blanks {blanks : Bytes} (hblanks : ∀ c ∈ blanks, IsBreak c) (rows : List CsvRow)
    (hrest : rest.head? ≠ some lf) (hskip : skip = true → (blanks ++ rest).head? = some lf) :
    run file skip (between rows) (blanks ++ rest) = run file false (between rows) rest := by
  induction blanks generalizing skip with
  | nil =>
    cases skip with
    | false => rfl
    | true => exact absurd (hskip rfl) hrest
  | cons c blanks ih =>
    obtain ⟨hc, hblanks⟩ := List.forall_mem_cons.mp hblanks
    cases skip with
    | true =>
      rw [List.cons_append, run]
      exact ih hblanks nofun
    | false =>
      have hstep : (between rows).step file c (blanks ++ rest).head? =
          .ok (between rows, c == cr && (blanks ++ rest).head? == some lf) := by
        have hfinish := finishRow_between rows
        rcases hc with rfl | rfl
        · simpa [step, between, quote, comma, lf, cr] using hfinish
        · simpa [step, between, quote, comma, lf, cr] using hfinish
      rw [List.cons_append, run_of_step hstep]
      apply ih hblanks
      intro hboth
      simp only [Bool.and_eq_true, beq_iff_eq] at hboth
      exact hboth.2

theorem run_breaks (file : Bytes) (h : p.Holds rows value) (terminator : Terminator)
    (blanks : List Terminator) (hrest : rest.head? ≠ some lf) :
    run file false p (breaks terminator blanks ++ rest) =
      run file false (between (rows ++ [[value]])) rest := by
  obtain ⟨b, after, hbreaks, hb, hafter⟩ := breaks_eq_cons terminator blanks
  have hstep : p.step file b (after ++ rest).head? =
      .ok (between (rows ++ [[value]]), b == cr && (after ++ rest).head? == some lf) := by
    have hfinish := h.finishRow
    have hquoted := h.quoted
    rcases hb with rfl | rfl
    · cases hclosed : p.quoteClosed <;>
        simp [step, hquoted, hclosed, hfinish, quote, comma, lf, cr]
    · cases hclosed : p.quoteClosed <;>
        simp [step, hquoted, hclosed, hfinish, quote, comma, lf, cr]
  rw [hbreaks, List.cons_append, run_of_step hstep]
  apply run_blanks hafter _ hrest
  intro hboth
  simp only [Bool.and_eq_true, beq_iff_eq] at hboth
  exact hboth.2

theorem head_breaks_ne_quote (terminator : Terminator) (blanks : List Terminator) (rest : Bytes) :
    (breaks terminator blanks ++ rest).head? ≠ some quote := by
  obtain ⟨b, after, hbreaks, hb, -⟩ := breaks_eq_cons terminator blanks
  rw [hbreaks]
  rcases hb with rfl | rfl
  · simp [lf, quote]
  · simp [cr, quote]

/-- What is left to do at the end of the text gives one row for each record. -/
theorem run_recordsText {values : List Bytes} {text : Bytes} (h : RecordsText values text)
    (hvalues : ∀ value ∈ values, value ≠ [] ∧ Plain value) (file : Bytes) (rows : List CsvRow) :
    ∃ p, run file false (between rows) text = .ok p ∧ p.quoted = false ∧
      p.finishRow.rows = rows ++ values.map fun value => [value] := by
  induction h generalizing rows with
  | @last value text hfield =>
    obtain ⟨hne, hplain⟩ := hvalues value List.mem_cons_self
    obtain ⟨p, hp, hrun⟩ := run_fieldText file hfield hplain hne rows
      (show ([] : Bytes).head? ≠ some quote by simp)
    refine ⟨p, ?_, hp.quoted, ?_⟩
    · rw [List.append_nil] at hrun
      rw [hrun, run]
    · rw [hp.finishRow]
      rfl
  | @closed value text terminator blanks hfield =>
    obtain ⟨hne, hplain⟩ := hvalues value List.mem_cons_self
    have hhead := head_breaks_ne_quote terminator blanks []
    obtain ⟨p, hp, hrun⟩ := run_fieldText file hfield hplain hne rows hhead
    have hbreaks := run_breaks file hp terminator blanks
      (show ([] : Bytes).head? ≠ some lf by simp)
    rw [List.append_nil] at hrun hbreaks
    refine ⟨between (rows ++ [[value]]), ?_, rfl, ?_⟩
    · rw [hrun, hbreaks, run]
    · rw [finishRow_between]
      rfl
  | @cons value text values texts terminator blanks hfield hrest ih =>
    obtain ⟨⟨hne, hplain⟩, hvalues⟩ := List.forall_mem_cons.mp hvalues
    have hhead := head_breaks_ne_quote terminator blanks texts
    obtain ⟨p, hp, hrun⟩ := run_fieldText file hfield hplain hne rows hhead
    have hnext : texts.head? ≠ some lf := by
      cases hrest with
      | @last next _ hnext =>
        have hhead := hnext.head_ne_lf [] (hvalues next List.mem_cons_self).1
        rwa [List.append_nil] at hhead
      | closed _ _ hnext | cons _ _ hnext =>
        exact hnext.head_ne_lf _ (hvalues _ List.mem_cons_self).1
    have hbreaks := run_breaks file hp terminator blanks hnext
    obtain ⟨q, hq, hquoted, hrows⟩ := ih hvalues (rows ++ [[value]])
    refine ⟨q, ?_, hquoted, ?_⟩
    · rw [hrun, hbreaks, hq]
    · rw [hrows, List.append_assoc]
      rfl

end CsvParser

theorem parseCsv_recordsText {values : List Bytes} {text : Bytes} (h : RecordsText values text)
    (hvalues : ∀ value ∈ values, value ≠ [] ∧ Plain value) (file : Bytes) :
    parseCsv file text = .ok (values.map fun value => [value]) := by
  obtain ⟨p, hrun, hquoted, hrows⟩ := CsvParser.run_recordsText h hvalues file []
  have hstart : CsvParser.run file false {} text = .ok p := hrun
  unfold parseCsv
  rw [hstart]
  simp [hquoted, hrows]

theorem mem_of_isOptionalHeader {header : Bytes} (h : isOptionalHeader header = true) {b : UInt8}
    (hb : b ∈ header) : isBlank b = true ∨ ∃ name ∈ headerNames, toLower b ∈ name := by
  unfold isOptionalHeader at h
  simp only [Bool.and_eq_true, List.contains_iff_mem] at h
  obtain ⟨-, hname⟩ := h
  -- A byte that is cut off at either end is blank.
  by_cases hleft : b ∈ header.dropWhile isBlank
  · by_cases hright : b ∈ (header.dropWhile isBlank).reverse.dropWhile isBlank
    · exact .inr ⟨_, hname, List.mem_map_of_mem (List.mem_reverse.mpr hright)⟩
    · rw [← List.mem_reverse, ← List.takeWhile_append_dropWhile (p := isBlank)
        (l := (header.dropWhile isBlank).reverse)] at hleft
      have htaken := (List.mem_append.mp hleft).resolve_right hright
      exact .inl (List.mem_takeWhile_imp htaken)
  · rw [← List.takeWhile_append_dropWhile (p := isBlank) (l := header)] at hb
    have htaken := (List.mem_append.mp hb).resolve_right hleft
    exact .inl (List.mem_takeWhile_imp htaken)

theorem isOptionalHeader_bytes {header : Bytes} (h : isOptionalHeader header = true) :
    ∀ b ∈ header, b ≠ 0 ∧ b ≠ cr ∧ b ≠ 0xEF := by
  intro b hb
  have hblanks : ∀ b : UInt8, isBlank b = true → b ≠ 0 ∧ b ≠ cr ∧ b ≠ 0xEF := by decide
  have hnames : ∀ name ∈ headerNames, ∀ c ∈ name, c ≠ 0 ∧ c ≠ cr ∧ c ≠ 0xEF := by decide
  rcases mem_of_isOptionalHeader h hb with hblank | ⟨name, hname, hmem⟩
  · exact hblanks b hblank
  · obtain ⟨hnul, hcr, hmark⟩ := hnames name hname _ hmem
    refine ⟨?_, ?_, ?_⟩
    · rintro rfl
      exact hnul rfl
    · rintro rfl
      exact hcr rfl
    · rintro rfl
      exact hmark rfl

theorem ne_nil_of_isOptionalHeader {header : Bytes} (h : isOptionalHeader header = true) :
    header ≠ [] := by
  rintro rfl
  simp [isOptionalHeader] at h

/-- A mark that is not written is not found. -/
theorem not_isPrefixOf_utf8Bom {header text : Bytes} (hheader : isOptionalHeader header = true)
    {samples : List Bytes} (h : RecordsText (header :: samples) text) :
    utf8Bom.isPrefixOf text = false := by
  obtain ⟨field, rest, hfield, rfl⟩ : ∃ field rest, FieldText header field ∧ text = field ++ rest := by
    cases h with
    | last hfield => exact ⟨text, [], hfield, (List.append_nil text).symm⟩
    | closed _ _ hfield => exact ⟨_, _, hfield, rfl⟩
    | cons _ _ hfield _ => exact ⟨_, _, hfield, rfl⟩
  cases hfield with
  | quoted => simp [utf8Bom, quote, List.isPrefixOf]
  | bare =>
    obtain ⟨b, after, rfl⟩ := List.exists_cons_of_ne_nil (ne_nil_of_isOptionalHeader hheader)
    have hb : (0xEF : UInt8) ≠ b := (isOptionalHeader_bytes hheader b List.mem_cons_self).2.2.symm
    simp [utf8Bom, List.isPrefixOf, hb]

/-- The single-column texts for a list of samples: a mark or none, a header line and the samples. -/
inductive CsvContent (samples : List Bytes) : Bytes → Prop
  | plain {header text : Bytes} : isOptionalHeader header = true →
      RecordsText (header :: samples) text → CsvContent samples text
  | marked {header text : Bytes} : isOptionalHeader header = true →
      RecordsText (header :: samples) text → CsvContent samples (utf8Bom ++ text)

namespace CsvSampleLogSource

theorem checkColumns_singletons (file : Bytes) (number : ℕ) (values : List Bytes) :
    checkColumns file number (values.map fun value => [value]) = .ok () := by
  induction values generalizing number with
  | nil => rfl
  | cons value values ih =>
    rw [List.map_cons, checkColumns, if_neg (by simp)]
    exact ih (number + 1)

theorem collectSamples_singletons (file : Bytes) (number : ℕ) {values : List Bytes}
    (h : ∀ value ∈ values, value ≠ []) :
    collectSamples file number (values.map fun value => [value]) = .ok values := by
  induction values generalizing number with
  | nil => rfl
  | cons value values ih =>
    obtain ⟨hvalue, hvalues⟩ := List.forall_mem_cons.mp h
    rw [List.map_cons, collectSamples, if_neg (by simpa using hvalue), ih (number + 1) hvalues]
    rfl

theorem loadRows_header (file : Bytes) {header : Bytes} {samples : List Bytes}
    (hheader : isOptionalHeader header = true) (hne : samples ≠ [])
    (hsamples : ∀ sample ∈ samples, sample ≠ []) :
    loadRows file ((header :: samples).map fun value => [value]) = .ok samples := by
  have hcolumns := checkColumns_singletons file 1 (header :: samples)
  have hcollect := collectSamples_singletons file 2 hsamples
  rw [List.map_cons] at hcolumns ⊢
  simp [loadRows, hcolumns, hheader, hcollect, hne, bind, Except.bind, pure, Except.pure]

/-- What the loader accepts has no empty sample. -/
theorem collectSamples_ne_nil {file : Bytes} {number : ℕ} {rows : List CsvRow}
    {samples : List Bytes} (h : collectSamples file number rows = .ok samples) :
    ∀ sample ∈ samples, sample ≠ [] := by
  induction rows generalizing number samples with
  | nil =>
    cases h
    exact nofun
  | cons row rows ih =>
    unfold collectSamples at h
    split_ifs at h with hempty
    cases hrest : collectSamples file (number + 1) rows with
    | error failure =>
      rw [hrest] at h
      cases h
    | ok rest =>
      rw [hrest] at h
      cases h
      exact List.forall_mem_cons.mpr ⟨hempty, ih hrest⟩

theorem loadRows_ne_nil {file : Bytes} {rows : List CsvRow} {samples : List Bytes}
    (h : loadRows file rows = .ok samples) : samples ≠ [] ∧ ∀ sample ∈ samples, sample ≠ [] := by
  unfold loadRows at h
  simp only [bind, Except.bind, pure, Except.pure] at h
  split at h
  · cases h
  split at h
  · cases h
  split at h
  · cases h
  rename_i samples' hcollect
  split_ifs at h with hnil
  cases h
  exact ⟨hnil, collectSamples_ne_nil hcollect⟩

theorem load_ne_nil {file : Bytes} {files : Files} {samples : List Bytes}
    (h : load file files = .ok samples) : samples ≠ [] ∧ ∀ sample ∈ samples, sample ≠ [] := by
  unfold load at h
  split_ifs at h
  split at h
  · cases h
  · dsimp only at h
    split at h
    · cases h
    · exact loadRows_ne_nil h

/-- The loader reads back every CSV text of a list of samples. -/
theorem load_csvContent (file : Bytes) (files : Files) (samples : List Bytes) (content : Bytes)
    (hextension : (FilePath.extension file).map toLower = bytes ".csv")
    (hfile : files file = some content) (hne : samples ≠ [])
    (hsamples : ∀ sample ∈ samples, sample ≠ [] ∧ Plain sample)
    (hcontent : CsvContent samples content) : load file files = .ok samples := by
  have hread : ∃ header text, isOptionalHeader header = true ∧
      RecordsText (header :: samples) text ∧
      (if utf8Bom.isPrefixOf content then content.drop utf8Bom.length else content) = text := by
    cases hcontent with
    | @plain header _ hheader htext =>
      refine ⟨header, content, hheader, htext, ?_⟩
      rw [not_isPrefixOf_utf8Bom hheader htext]
      rfl
    | @marked header text hheader htext =>
      refine ⟨header, text, hheader, htext, ?_⟩
      have hmark : utf8Bom.isPrefixOf (utf8Bom ++ text) = true := by
        simp [List.isPrefixOf_iff_prefix]
      rw [hmark, if_pos rfl, List.drop_left]
  obtain ⟨header, text, hheader, htext, hbody⟩ := hread
  have hvalues : ∀ value ∈ header :: samples, value ≠ [] ∧ Plain value := by
    have hplain : Plain header := fun b hb =>
      ⟨(isOptionalHeader_bytes hheader b hb).1, (isOptionalHeader_bytes hheader b hb).2.1⟩
    exact List.forall_mem_cons.mpr ⟨⟨ne_nil_of_isOptionalHeader hheader, hplain⟩, hsamples⟩
  unfold load
  rw [if_neg (not_not.mpr hextension), hfile]
  dsimp only
  rw [hbody, parseCsv_recordsText htext hvalues]
  exact loadRows_header file hheader hne fun sample h => (hsamples sample h).1

/-- A mark, a blank line, and a quoted sample with a quote, a comma and a line feed. -/
theorem load_csvContent_quoted :
    load (bytes "a.CSV") (fun _ => some (utf8Bom ++ bytes "Sample_Log\r\r\n\"x\"\",\r\ny\"\nz")) =
      .ok [bytes "x\",\ny", bytes "z"] := by
  have hheader : FieldText (bytes "Sample_Log") (bytes "Sample_Log") := .bare (by
    unfold Bare
    decide)
  have hquoted : FieldText (bytes "x\",\ny") (bytes "\"x\"\",\r\ny\"") :=
    .quoted (.other (by decide) (by decide) (.quote (.other (by decide) (by decide)
      (.crlf (.other (by decide) (by decide) .nil)))))
  have hbare : FieldText (bytes "z") (bytes "z") := .bare (by
    unfold Bare
    decide)
  apply load_csvContent
  · decide
  · rfl
  · exact List.cons_ne_nil _ _
  · unfold Plain
    decide
  · have hname : isOptionalHeader (bytes "Sample_Log") = true := by decide
    exact .marked hname (.cons .cr [.crlf] hheader
      (.cons .lf [] hquoted (.last hbare)))

end CsvSampleLogSource
end Infrastructure
end LogGenerator
