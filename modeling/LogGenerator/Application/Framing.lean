import LogGenerator.Domain.GeneratorConfig
import LogGenerator.Foundation.PrefixCode

/-!
# Event framing

`append_frame` and the separately written size function of
`stress_test_service.cpp`. Both framings are self-delimiting: a batch of frames
is read back by `PrefixCode.read`.
-/

namespace LogGenerator
namespace Application

open Ascii Domain

def isBreak (b : UInt8) : Bool := b == cr || b == lf

/-- What the per-character loop appends for one byte. -/
def escapeByte (b : UInt8) : Bytes :=
  if b = cr then bytes "\\r" else if b = lf then bytes "\\n" else [b]

/-- The per-character loop of `append_frame`. -/
def appendEscaped (batch payload : Bytes) : Bytes :=
  payload.foldl (fun out b => out ++ escapeByte b) batch

def appendFrame (batch payload : Bytes) : StreamFraming → Bytes
  | .octetCounting => batch ++ decimal payload.length ++ [space] ++ payload
  | .newline =>
    if payload.any isBreak then appendEscaped batch payload ++ [lf]
    else batch ++ payload ++ [lf]

def newlineFrameSize (payload : Bytes) : ℕ := payload.length + 1 + payload.countP isBreak

/-- The payload as its newline frame shows it: every break replaced by its two-byte escape. -/
def escapeBreaks (payload : Bytes) : Bytes := payload.flatMap escapeByte

theorem appendEscaped_eq (batch payload : Bytes) :
    appendEscaped batch payload = batch ++ escapeBreaks payload := by
  induction payload generalizing batch with
  | nil => simp [appendEscaped, escapeBreaks]
  | cons b payload ih =>
    have h := ih (batch ++ escapeByte b)
    simp only [appendEscaped, escapeBreaks, List.foldl_cons, List.flatMap_cons] at h ⊢
    rw [h, List.append_assoc]

theorem escapeByte_of_not_isBreak {b : UInt8} (hb : isBreak b = false) : escapeByte b = [b] := by
  simp only [isBreak, Bool.or_eq_false_iff, beq_eq_false_iff_ne] at hb
  simp [escapeByte, hb.1, hb.2]

theorem escapeBreaks_eq_self {payload : Bytes} (h : payload.any isBreak = false) :
    escapeBreaks payload = payload := by
  induction payload with
  | nil => rfl
  | cons b payload ih =>
    simp only [List.any_cons, Bool.or_eq_false_iff] at h
    have ht := ih h.2
    simp only [escapeBreaks, List.flatMap_cons] at ht ⊢
    rw [ht, escapeByte_of_not_isBreak h.1]
    rfl

/-- The fast path for payloads without breaks and the per-character path agree. -/
theorem appendFrame_newline (batch payload : Bytes) :
    appendFrame batch payload .newline = batch ++ (escapeBreaks payload ++ [lf]) := by
  by_cases h : payload.any isBreak = true
  · simp only [appendFrame, h, ↓reduceIte, appendEscaped_eq, List.append_assoc]
  · rw [Bool.not_eq_true] at h
    simp [appendFrame, h, escapeBreaks_eq_self h]

theorem appendFrame_octets (batch payload : Bytes) :
    appendFrame batch payload .octetCounting =
      batch ++ (decimal payload.length ++ space :: payload) := by
  simp [appendFrame]

theorem appendFrame_eq (batch payload : Bytes) (framing : StreamFraming) :
    appendFrame batch payload framing = batch ++ appendFrame [] payload framing := by
  cases framing <;> simp [appendFrame_newline, appendFrame_octets]

def newlineFrame (payload : Bytes) : Bytes := appendFrame [] payload .newline

theorem newlineFrame_eq (payload : Bytes) : newlineFrame payload = escapeBreaks payload ++ [lf] := by
  simp [newlineFrame, appendFrame_newline]

theorem newlineFrame_ne_nil (payload : Bytes) : newlineFrame payload ≠ [] := by
  simp [newlineFrame_eq]

theorem escapeByte_no_break (b c : UInt8) (hc : c ∈ escapeByte b) : isBreak c = false := by
  unfold escapeByte at hc
  split_ifs at hc with h₁ h₂
  · have hsafe : (bytes "\\r").all (fun d => !isBreak d) = true := by decide
    simpa using List.all_eq_true.mp hsafe c hc
  · have hsafe : (bytes "\\n").all (fun d => !isBreak d) = true := by decide
    simpa using List.all_eq_true.mp hsafe c hc
  · rw [List.mem_singleton] at hc
    simp [hc, isBreak, h₁, h₂]

theorem escapeBreaks_no_break (payload : Bytes) (c : UInt8) (hc : c ∈ escapeBreaks payload) :
    isBreak c = false := by
  obtain ⟨b, _, hc⟩ := List.mem_flatMap.mp hc
  exact escapeByte_no_break b c hc

theorem lf_notMem_escapeBreaks (payload : Bytes) : lf ∉ escapeBreaks payload := fun h =>
  absurd (escapeBreaks_no_break payload lf h) (by decide)

theorem cr_notMem_newlineFrame (payload : Bytes) : cr ∉ newlineFrame payload := fun h => by
  rw [newlineFrame_eq, List.mem_append] at h
  rcases h with h | h
  · exact absurd (escapeBreaks_no_break payload cr h) (by decide)
  · exact absurd h (by decide)

theorem length_escapeByte (b : UInt8) :
    (escapeByte b).length = 1 + if isBreak b then 1 else 0 := by
  unfold escapeByte isBreak
  by_cases h₁ : b = cr
  · subst h₁; rfl
  · by_cases h₂ : b = lf
    · subst h₂; rfl
    · simp [h₁, h₂]

theorem length_escapeBreaks (payload : Bytes) :
    (escapeBreaks payload).length = payload.length + payload.countP isBreak := by
  induction payload with
  | nil => rfl
  | cons b payload ih =>
    simp only [escapeBreaks, List.flatMap_cons, List.length_append] at ih ⊢
    rw [ih, length_escapeByte, List.length_cons, List.countP_cons]
    omega

theorem length_newlineFrame (payload : Bytes) :
    (newlineFrame payload).length = newlineFrameSize payload := by
  rw [newlineFrame_eq, List.length_append, length_escapeBreaks, newlineFrameSize]
  simp only [List.length_singleton]
  omega

/-- Each event frame holds exactly one LF. -/
theorem count_lf_newlineFrame (payload : Bytes) : (newlineFrame payload).count lf = 1 := by
  rw [newlineFrame_eq, List.count_append, List.count_eq_zero_of_not_mem
    (lf_notMem_escapeBreaks payload)]
  rfl

/-- The batch a send loop builds from a list of payloads. -/
def frameBatch (framing : StreamFraming) (payloads : List Bytes) : Bytes :=
  payloads.foldl (fun batch payload => appendFrame batch payload framing) []

theorem foldl_appendFrame (framing : StreamFraming) (payloads : List Bytes) (batch : Bytes) :
    payloads.foldl (fun batch payload => appendFrame batch payload framing) batch =
      batch ++ payloads.flatMap fun payload => appendFrame [] payload framing := by
  induction payloads generalizing batch with
  | nil => simp
  | cons payload payloads ih =>
    rw [List.foldl_cons, ih, appendFrame_eq batch, List.flatMap_cons, List.append_assoc]

theorem frameBatch_eq (framing : StreamFraming) (payloads : List Bytes) :
    frameBatch framing payloads = payloads.flatMap fun payload => appendFrame [] payload framing := by
  simpa [frameBatch] using foldl_appendFrame framing payloads []

/-- A decimal length, one space and that many bytes. -/
def readOctetFrame (input : Bytes) : Option (Bytes × Bytes) :=
  match input.span isDigit with
  | (ds, b :: body) =>
    if ds ≠ [] ∧ b = space ∧ decimalValue ds ≤ body.length then
      some (body.take (decimalValue ds), body.drop (decimalValue ds))
    else none
  | (_, []) => none

/-- The bytes up to the first LF, which is consumed. -/
def readLine (input : Bytes) : Option (Bytes × Bytes) :=
  match input.span (· != lf) with
  | (line, _ :: rest) => some (line, rest)
  | (_, []) => none

def octetCode : PrefixCode Bytes UInt8 where
  encode payload := appendFrame [] payload .octetCounting
  decode := readOctetFrame
  Word _ := True
  encode_ne_nil payload := by simp [appendFrame_octets]
  decode_encode payload _ rest := by
    have hs := span_decimal payload.length (show isDigit space = false by decide) (payload ++ rest)
    rw [appendFrame_octets, List.nil_append, List.append_assoc, List.cons_append, readOctetFrame, hs]
    simp [decimal_ne_nil]

def lineCode : PrefixCode Bytes UInt8 where
  encode line := line ++ [lf]
  decode := readLine
  Word line := lf ∉ line
  encode_ne_nil line := by simp
  decode_encode line hl rest := by
    have hall : ∀ b ∈ line, (b != lf) = true := fun b hb => by
      simpa using fun h : b = lf => hl (h ▸ hb)
    have hs : (line ++ [lf] ++ rest).span (· != lf) = (line, lf :: rest) := by
      rw [List.span_eq_takeWhile_dropWhile, List.append_assoc,
        List.takeWhile_append_of_pos hall, List.dropWhile_append_of_pos hall]
      simp
    rw [readLine, hs]

theorem frameBatch_newline (payloads : List Bytes) :
    frameBatch .newline payloads = (payloads.map escapeBreaks).flatMap lineCode.encode := by
  rw [frameBatch_eq, List.flatMap_map]
  apply List.flatMap_congr
  intro payload _
  simp [appendFrame_newline, lineCode]

theorem read_frameBatch_octets (payloads : List Bytes) :
    octetCode.read (frameBatch .octetCounting payloads) = some payloads := by
  rw [frameBatch_eq]
  exact octetCode.read_flatMap payloads fun _ _ => trivial

theorem read_frameBatch_newline (payloads : List Bytes) :
    lineCode.read (frameBatch .newline payloads) = some (payloads.map escapeBreaks) := by
  rw [frameBatch_newline]
  apply lineCode.read_flatMap
  intro line hline
  obtain ⟨payload, _, rfl⟩ := List.mem_map.mp hline
  exact lf_notMem_escapeBreaks payload

theorem cr_notMem_frameBatch (payloads : List Bytes) : cr ∉ frameBatch .newline payloads := by
  rw [frameBatch_eq]
  intro h
  obtain ⟨payload, _, hc⟩ := List.mem_flatMap.mp h
  exact cr_notMem_newlineFrame payload hc

/-- Both stream framings are decodable, the two newline paths write the same
bytes, and the size function is exact. -/
theorem streamFraming_decodable :
    (∀ payloads, octetCode.read (frameBatch .octetCounting payloads) = some payloads) ∧
    (∀ payloads, lineCode.read (frameBatch .newline payloads) = some (payloads.map escapeBreaks) ∧
      cr ∉ frameBatch .newline payloads) ∧
    (∀ batch payload : Bytes, payload.any isBreak = false →
      batch ++ payload ++ [lf] = appendEscaped batch payload ++ [lf]) ∧
    (∀ payload, (appendFrame [] payload .newline).length = newlineFrameSize payload) := by
  refine ⟨read_frameBatch_octets, fun payloads => ⟨read_frameBatch_newline payloads,
    cr_notMem_frameBatch payloads⟩, ?_, length_newlineFrame⟩
  intro batch payload h
  rw [appendEscaped_eq, escapeBreaks_eq_self h]

end Application
end LogGenerator
