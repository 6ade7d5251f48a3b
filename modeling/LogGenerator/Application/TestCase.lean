import LogGenerator.Application.LogRenderer
import LogGenerator.Foundation.Occurrences
import LogGenerator.Foundation.Runs

/-!
# Test cases

Token after token, `expand_test_case` puts the values of a token in place of its markers
in the text grown so far. Beside it stands the substitution of all tokens at once.
-/

namespace LogGenerator
namespace Application
namespace LogRenderer

open Ascii Domain Occurrences

variable {token token' part gap behind rest text m : Bytes} {parts values : List Bytes}
  {tokens : List Bytes}

theorem braced_append (token rest : Bytes) :
    braced token ++ rest = 123 :: 123 :: (token ++ (125 :: 125 :: rest)) := by
  rw [braced, List.append_assoc, List.append_assoc]
  rfl

theorem length_braced (token : Bytes) : (braced token).length = token.length + 4 := by
  rw [← List.append_nil (braced token), braced_append]
  simp only [List.length_cons, List.length_append, List.length_nil]

theorem braced_ne_nil (token : Bytes) : braced token ≠ [] :=
  List.length_pos_iff.mp (by rw [length_braced]; omega)

theorem validToken_iff : validToken token = true ↔
    token ≠ [] ∧ ∀ b ∈ token, isUpper b = true ∨ b = 95 := by
  simp [validToken]

theorem not_brace_of_validToken (h : validToken token = true) :
    ∀ b ∈ token, b ≠ 123 ∧ b ≠ 125 := by
  have hclass : ∀ b : UInt8, (isUpper b = true ∨ b = 95) → b ≠ 123 ∧ b ≠ 125 := by
    decide
  exact fun b hb => hclass b ((validToken_iff.mp h).2 b hb)

/-- A marker does not begin inside another. -/
theorem braced_disjoint (h : validToken token = true)
    (heq : braced token ++ rest = gap ++ (braced token' ++ behind)) :
    gap = [] ∨ (braced token).length ≤ gap.length := by
  rw [braced_append, braced_append] at heq
  rcases gap with - | ⟨b, - | ⟨c, gap⟩⟩
  · exact .inl rfl
  · -- one byte further on, a name would begin with a brace
    obtain ⟨d, name, rfl⟩ := List.exists_cons_of_ne_nil (validToken_iff.mp h).1
    simp only [List.cons_append, List.nil_append, List.cons.injEq] at heq
    exact absurd heq.2.2.1 (not_brace_of_validToken h d List.mem_cons_self).1
  · refine .inr (not_lt.mp fun hshort => ?_)
    simp only [List.cons_append, List.cons.injEq] at heq
    rw [length_braced, List.length_cons, List.length_cons] at hshort
    have hgap : ((token ++ [125, 125]) ++ rest)[gap.length]? = some 123 := by
      rw [List.append_assoc, List.cons_append, List.cons_append, List.nil_append, heq.2.2,
        List.getElem?_append_right le_rfl, Nat.sub_self]
      rfl
    rw [List.getElem?_append_left (by simp; omega)] at hgap
    rcases List.mem_append.mp (List.mem_of_getElem? hgap) with hmem | hmem
    · exact (not_brace_of_validToken h 123 hmem).1 rfl
    · simp at hmem

theorem unbordered_braced (h : validToken token = true) : Unbordered (braced token) :=
  fun _ _ _ heq => braced_disjoint h heq

inductive Piece where
  | text (b : UInt8)
  | marker (token : Bytes)
  deriving DecidableEq

def Piece.written : Piece → Bytes
  | .text b => [b]
  | .marker token => braced token

def written (pieces : List Piece) : Bytes := pieces.flatMap Piece.written

/-- The markers of the tokens in a text and the bytes between them; `skip` bytes belong to
a marker already found. -/
def pieces (tokens : List Bytes) : ℕ → Bytes → List Piece
  | _, [] => []
  | skip + 1, _ :: rest => pieces tokens skip rest
  | 0, b :: rest =>
    match tokens.find? fun token => (braced token).isPrefixOf (b :: rest) with
    | some token => .marker token :: pieces tokens ((braced token).length - 1) rest
    | none => .text b :: pieces tokens 0 rest

/-- The pieces between the markers of a token. -/
def between (token : Bytes) (part : List Piece) (parts : List (List Piece)) : List Piece :=
  part ++ parts.flatMap (.marker token :: ·)

/-- The first markers of a token give way to its values. -/
def fill (token : Bytes) : List Bytes → List Piece → List Piece
  | [], ps => ps
  | _, [] => []
  | value :: values, piece :: ps =>
    if piece = .marker token then
      (PrivacyAnonymizer.sanitize value).map .text ++ fill token values ps
    else piece :: fill token (value :: values) ps

theorem fill_marker (token value : Bytes) (values : List Bytes) (ps : List Piece) :
    fill token (value :: values) (.marker token :: ps) =
      (PrivacyAnonymizer.sanitize value).map .text ++ fill token values ps := if_pos rfl

theorem fill_other {piece : Piece} (h : piece ≠ .marker token) (values : List Bytes)
    (ps : List Piece) : fill token values (piece :: ps) = piece :: fill token values ps := by
  cases values with
  | nil => rw [fill, fill]
  | cons value values => exact if_neg h

theorem fill_append {segment : List Piece} (h : .marker token ∉ segment) (values : List Bytes)
    (ps : List Piece) : fill token values (segment ++ ps) = segment ++ fill token values ps := by
  induction segment with
  | nil => rfl
  | cons piece segment ih =>
    rw [List.mem_cons, not_or] at h
    rw [List.cons_append, fill_other (Ne.symm h.1), ih h.2, List.cons_append]

/-- Bytes that stand between the markers spell a marker of the token. -/
def Spelled (token : Bytes) (ps : List Piece) : Prop := (braced token).map .text <:+: ps

variable {entries before after order : List (Bytes × List Bytes)} {id result : Bytes}

def substituteToken (text : Bytes) (entry : Bytes × List Bytes) : Bytes :=
  written (fill entry.1 entry.2 (pieces [entry.1] 0 text))

def oneAfterAnother (entries : List (Bytes × List Bytes)) (text : Bytes) : Bytes :=
  entries.foldl substituteToken text

/-- The token is valid and has as many values as the text has markers of it. -/
def Fits (text : Bytes) (entry : Bytes × List Bytes) : Prop :=
  validToken entry.1 = true ∧ countOccurrences text (braced entry.1) = entry.2.length

instance (text : Bytes) : DecidablePred (Fits text) := fun entry =>
  inferInstanceAs (Decidable (validToken entry.1 = true ∧
    countOccurrences text (braced entry.1) = entry.2.length))

/-- The texts that the tokens before a token have left have as many of its markers as the
text at the start. -/
def Undisturbed (entries : List (Bytes × List Bytes)) (text : Bytes) : Prop :=
  ∀ before token values after, entries = before ++ (token, values) :: after →
    countOccurrences (oneAfterAnother before text) (braced token) =
      countOccurrences text (braced token)

theorem Undisturbed.left (h : Undisturbed (before ++ after) text) : Undisturbed before text := by
  intro first token values rest heq
  exact h first token values (rest ++ after) (by rw [heq, List.append_assoc, List.cons_append])

/-- What is spelled stays spelled when more values are put in. -/
theorem Spelled.fill {ps : List Piece} (h : Spelled token' ps) (token : Bytes)
    (values : List Bytes) : Spelled token' (fill token values ps) := by
  have hbehind (front : List Piece) (values : List Bytes) (ps : List Piece) :
      ∃ front' values', LogRenderer.fill token values (front ++ ps) =
        front' ++ LogRenderer.fill token values' ps := by
    induction front generalizing values with
    | nil => exact ⟨[], values, rfl⟩
    | cons piece front ih =>
      by_cases hpiece : piece = .marker token
      · subst hpiece
        cases values with
        | nil => exact ⟨.marker token :: front, [], by rw [LogRenderer.fill, LogRenderer.fill]⟩
        | cons value values =>
          obtain ⟨front', values', hfront⟩ := ih values
          exact ⟨(PrivacyAnonymizer.sanitize value).map .text ++ front', values', by
            rw [List.cons_append, fill_marker, hfront, List.append_assoc]⟩
      · obtain ⟨front', values', hfront⟩ := ih values
        exact ⟨piece :: front', values', by
          rw [List.cons_append, fill_other hpiece, hfront, List.cons_append]⟩
  obtain ⟨front, back, rfl⟩ := h
  obtain ⟨front', values', hfront⟩ := hbehind front values ((braced token').map .text ++ back)
  have hbytes : Piece.marker token ∉ (braced token').map Piece.text := by simp
  rw [List.append_assoc, hfront, fill_append hbytes]
  exact ⟨front', LogRenderer.fill token values' back, List.append_assoc _ _ _⟩

/-- The other tokens that fit. -/
def others (entries : List (Bytes × List Bytes)) (text token : Bytes) :
    List (Bytes × List Bytes) :=
  entries.filter fun entry => entry.1 ≠ token ∧ Fits text entry

end LogRenderer
end Application
end LogGenerator
