import LogGenerator.Foundation.Bytes

/-!
# CSV texts of one column

The texts that stand for a list of records: fields bare or between quotes, any of
the three line terminators after each, and blank lines.
-/

namespace LogGenerator
namespace CsvText

open Ascii

def comma : UInt8 := 44

inductive Terminator where
  | lf | crlf | cr
  deriving DecidableEq

def Terminator.text : Terminator → Bytes
  | .lf => [Ascii.lf]
  | .crlf => [Ascii.cr, Ascii.lf]
  | .cr => [Ascii.cr]

/-- A value between quotes: its quotes are doubled, and its line feeds may follow a carriage
return. -/
inductive QuotedText : Bytes → Bytes → Prop
  | nil : QuotedText [] []
  | quote {value text : Bytes} :
      QuotedText value text → QuotedText (quote :: value) (quote :: quote :: text)
  | lf {value text : Bytes} : QuotedText value text → QuotedText (lf :: value) (lf :: text)
  | crlf {value text : Bytes} : QuotedText value text → QuotedText (lf :: value) (cr :: lf :: text)
  | other {b : UInt8} {value text : Bytes} :
      b ≠ Ascii.quote → b ≠ Ascii.lf → QuotedText value text → QuotedText (b :: value) (b :: text)

/-- Neither a comma, a quote nor a line feed. -/
def Bare (value : Bytes) : Prop := ∀ b ∈ value, b ≠ comma ∧ b ≠ quote ∧ b ≠ lf

inductive FieldText : Bytes → Bytes → Prop
  | bare {value : Bytes} : Bare value → FieldText value value
  | quoted {value text : Bytes} :
      QuotedText value text → FieldText value (quote :: (text ++ [quote]))

/-- The terminator of a record and those of the blank lines after it. -/
def breaks (terminator : Terminator) (blanks : List Terminator) : Bytes :=
  terminator.text ++ blanks.flatMap Terminator.text

/-- Records with a terminator after each but possibly the last. -/
inductive RecordsText : List Bytes → Bytes → Prop
  | last {value text : Bytes} : FieldText value text → RecordsText [value] text
  | closed {value text : Bytes} (terminator : Terminator) (blanks : List Terminator) :
      FieldText value text → RecordsText [value] (text ++ breaks terminator blanks)
  | cons {value text : Bytes} {values : List Bytes} {texts : Bytes} (terminator : Terminator)
      (blanks : List Terminator) : FieldText value text → RecordsText values texts →
      RecordsText (value :: values) (text ++ (breaks terminator blanks ++ texts))

def IsBreak (b : UInt8) : Prop := b = lf ∨ b = cr

theorem isBreak_of_mem_text {t : Terminator} {b : UInt8} (h : b ∈ t.text) : IsBreak b := by
  cases t with
  | lf => exact .inl (List.mem_singleton.mp h)
  | cr => exact .inr (List.mem_singleton.mp h)
  | crlf =>
    rcases List.mem_cons.mp h with hcr | hlf
    · exact .inr hcr
    · exact .inl (List.mem_singleton.mp hlf)

/-- A terminator and blank lines are a string of line feeds and carriage returns. -/
theorem breaks_eq_cons (t : Terminator) (blanks : List Terminator) :
    ∃ b rest, breaks t blanks = b :: rest ∧ IsBreak b ∧ ∀ c ∈ rest, IsBreak c := by
  have hall : ∀ c ∈ breaks t blanks, IsBreak c := by
    intro c hc
    rcases List.mem_append.mp hc with hc | hc
    · exact isBreak_of_mem_text hc
    · obtain ⟨u, -, hu⟩ := List.mem_flatMap.mp hc
      exact isBreak_of_mem_text hu
  cases hbreaks : breaks t blanks with
  | nil =>
    have hempty := (List.append_eq_nil_iff.mp hbreaks).1
    cases t <;> cases hempty
  | cons b rest =>
    rw [hbreaks] at hall
    obtain ⟨hb, hrest⟩ := List.forall_mem_cons.mp hall
    exact ⟨b, rest, rfl, hb, hrest⟩

/-- A record does not begin with a line feed. -/
theorem FieldText.head_ne_lf {value text : Bytes} (h : FieldText value text) (rest : Bytes) :
    value ≠ [] → (text ++ rest).head? ≠ some lf := by
  intro hvalue
  cases h with
  | quoted h => simp [quote, lf]
  | bare h =>
    cases value with
    | nil => exact absurd rfl hvalue
    | cons b value =>
      have hb := (h b List.mem_cons_self).2.2
      simpa using hb

end CsvText
end LogGenerator
