import LogGenerator.Application.PrivacyAnonymizer
import LogGenerator.Foundation.Occurrences
import LogGenerator.Foundation.Runs

/-!
# The field scanner

What `replace_sensitive_fields` makes of a text, read from left to right, and where its
scan finds a field.
-/

namespace LogGenerator
namespace Application
namespace PrivacyAnonymizer

open Ascii Runs

/-- What becomes of a value. -/
def replacedValue (name value : Bytes) : Bytes :=
  let kind := classifyField name
  if kind ≠ .none ∧ value ≠ [] ∧ !contains value (bytes "\x7b\x7b") ∧
      !contains value (bytes "\x7d\x7d") then marker kind
  else value

/-- A field may begin after the text. -/
def atBoundary (text : Bytes) : Bool := text.getLast?.all fieldBoundary

/-- The rest of the output from a place where a field may begin when `boundary` holds. -/
def rewriteFields (boundary : Bool) (text : Bytes) : Bytes :=
  match text with
  | [] => []
  | b :: rest =>
    if boundary then
      match scanField (b :: rest) with
      | .noField => b :: rewriteFields (fieldBoundary b) rest
      | .inputEnds => b :: rest
      | .field f =>
        (b :: rest).take f.valueBegin ++
          replacedValue f.name (slice (b :: rest) (f.valueBegin, f.valueEnd)) ++
          rewriteFields (atBoundary ((b :: rest).take f.valueEnd)) (rest.drop (f.valueEnd - 1))
    else b :: rewriteFields (fieldBoundary b) rest
termination_by text.length
decreasing_by
  all_goals
    simp only [List.length_cons, List.length_drop]
    omega

theorem scanField_bounds {text : Bytes} {f : FieldAt} (h : scanField text = .field f) :
    1 ≤ f.valueBegin ∧ f.valueBegin ≤ f.valueEnd ∧ f.position = f.valueEnd := by
  unfold scanField at h
  extract_lets opening afterQuote name afterName closing blanks atSeparator spaces value valueAt at h
  have hvalueAt : 1 ≤ valueAt := by
    change 1 ≤ opening + name.length + closing + blanks + 1 + spaces
    omega
  clear_value value valueAt
  split at h
  · cases h
  · split at h
    · cases h
    · split at h
      · cases h
      · split at h
        · cases h
        · split at h
          · cases h
            exact ⟨by dsimp only; omega, Nat.le_add_right _ _, rfl⟩
          · cases h
            exact ⟨by dsimp only; omega, Nat.le_add_right _ _, rfl⟩

@[simp] theorem rewriteFields_nil (boundary : Bool) : rewriteFields boundary [] = [] := by
  rw [rewriteFields]

theorem rewriteFields_skip {boundary : Bool} {b : UInt8} {rest : Bytes}
    (h : boundary = true → scanField (b :: rest) = .noField) :
    rewriteFields boundary (b :: rest) = b :: rewriteFields (fieldBoundary b) rest := by
  rw [rewriteFields]
  cases boundary with
  | false => rfl
  | true => simp [h]

theorem rewriteFields_field {text : Bytes} {f : FieldAt} (h : scanField text = .field f) :
    rewriteFields true text =
      text.take f.valueBegin ++ replacedValue f.name (slice text (f.valueBegin, f.valueEnd)) ++
        rewriteFields (atBoundary (text.take f.valueEnd)) (text.drop f.valueEnd) := by
  obtain ⟨hbegin, hend, -⟩ := scanField_bounds h
  cases text with
  | nil => cases h
  | cons b rest =>
    have hdrop : (b :: rest).drop f.valueEnd = rest.drop (f.valueEnd - 1) := by
      obtain ⟨n, hn⟩ := Nat.exists_eq_add_of_le (hbegin.trans hend)
      rw [hn, Nat.add_comm, List.drop_succ_cons, Nat.add_sub_cancel]
    rw [rewriteFields, hdrop]
    simp [h]

theorem rewriteFields_inputEnds {text : Bytes} (h : scanField text = .inputEnds) :
    rewriteFields true text = text := by
  cases text with
  | nil => cases h
  | cons b rest =>
    rw [rewriteFields]
    simp [h]

@[simp] theorem atBoundary_concat (text : Bytes) (b : UInt8) :
    atBoundary (text ++ [b]) = fieldBoundary b := by
  simp [atBoundary]

theorem atBoundary_append (front : Bytes) {text : Bytes} (h : text ≠ []) :
    atBoundary (front ++ text) = atBoundary text := by
  rw [atBoundary, atBoundary, List.getLast?_append_of_ne_nil _ h]

theorem atBoundary_take_succ {input : Bytes} {c : ℕ} (h : c < input.length) :
    atBoundary (input.take (c + 1)) = fieldBoundary input[c] := by
  rw [List.take_succ_eq_append_getElem h, atBoundary_concat]

theorem atBoundary_take {input : Bytes} {c : ℕ} (h : c < input.length) :
    atBoundary (input.take c) = true ↔ ¬ (0 < c ∧ !(input[c - 1]?).any fieldBoundary) := by
  cases c with
  | zero => simp [atBoundary]
  | succ c =>
    rw [atBoundary_take_succ (Nat.lt_of_succ_lt h), Nat.add_sub_cancel,
      List.getElem?_eq_getElem (Nat.lt_of_succ_lt h)]
    simp

theorem slice_self (input : Bytes) (a : ℕ) : slice input (a, a) = [] := by
  rw [slice, Nat.sub_self, List.take_zero]

theorem slice_drop (input : Bytes) (c a b : ℕ) :
    slice (input.drop c) (a, b) = slice input (c + a, c + b) := by
  simp only [slice, List.drop_drop]
  rw [Nat.add_sub_add_left]

theorem slice_append (input : Bytes) {a b c : ℕ} (hab : a ≤ b) (hbc : b ≤ c) :
    slice input (a, b) ++ slice input (b, c) = slice input (a, c) := by
  simp only [slice]
  rw [show c - a = (b - a) + (c - b) by omega, List.take_add, List.drop_drop,
    show a + (b - a) = b by omega]

/-- The copy that the edits leave from a cursor before the candidate on. -/
theorem spliceFrom_fieldEdits {input : Bytes} {fuel c cursor : ℕ} (hfuel : input.length < fuel + c)
    (hcursor : cursor ≤ c) :
    spliceFrom input (fieldEdits input fuel c) cursor =
      slice input (cursor, c) ++ rewriteFields (atBoundary (input.take c)) (input.drop c) := by
  have hpast {c cursor : ℕ} (hend : input.length ≤ c) : input.drop cursor =
      slice input (cursor, c) ++ rewriteFields (atBoundary (input.take c)) (input.drop c) := by
    rw [slice, List.drop_eq_nil_of_le hend, rewriteFields_nil, List.append_nil,
      List.take_of_length_le]
    rw [List.length_drop]
    omega
  induction fuel generalizing c cursor with
  | zero => exact hpast (by omega)
  | succ fuel ih =>
    by_cases hend : input.length ≤ c
    · rw [fieldEdits, if_pos hend]
      exact hpast hend
    · have hlt : c < input.length := not_le.mp hend
      have hone : slice input (c, c + 1) = [input[c]] := by
        rw [slice, List.drop_eq_getElem_cons hlt, Nat.add_sub_cancel_left]
        rfl
      have hskip : spliceFrom input (fieldEdits input fuel (c + 1)) cursor =
          slice input (cursor, c) ++
            input[c] :: rewriteFields (fieldBoundary input[c]) (input.drop (c + 1)) := by
        rw [ih (by omega) (by omega), atBoundary_take_succ hlt,
          ← slice_append input hcursor (Nat.le_succ c), hone, List.append_assoc,
          List.singleton_append]
      rw [fieldEdits, if_neg hend]
      split_ifs with hinside
      · rw [hskip, List.drop_eq_getElem_cons hlt, rewriteFields_skip]
        exact fun hboundary => ((atBoundary_take hlt).mp hboundary hinside).elim
      · have hboundary := (atBoundary_take hlt).mpr hinside
        rw [hboundary]
        split
        · next hscan =>
          rw [hskip, List.drop_eq_getElem_cons hlt, rewriteFields_skip]
          exact fun _ => List.drop_eq_getElem_cons hlt ▸ hscan
        · next hscan =>
          rw [rewriteFields_inputEnds hscan, spliceFrom, slice]
          conv_lhs => rw [← List.take_append_drop (c - cursor) (input.drop cursor)]
          rw [List.drop_drop, Nat.add_sub_cancel' hcursor]
        · next f hscan =>
          obtain ⟨hbegin, hfinish, hposition⟩ := scanField_bounds hscan
          have hnonempty : (input.drop c).take f.valueEnd ≠ [] := by
            rw [← List.length_pos_iff, List.length_take, List.length_drop]
            omega
          have hafter : rewriteFields (atBoundary ((input.drop c).take f.valueEnd))
              ((input.drop c).drop f.valueEnd) = rewriteFields
                (atBoundary (input.take (c + f.valueEnd))) (input.drop (c + f.valueEnd)) := by
            rw [List.drop_drop, List.take_add, atBoundary_append _ hnonempty]
          have hnext : max (c + f.position) (c + 1) = c + f.valueEnd := by omega
          have hhead : (input.drop c).take f.valueBegin = slice input (c, c + f.valueBegin) := by
            rw [slice, Nat.add_sub_cancel_left]
          rw [rewriteFields_field hscan, hafter, hnext, slice_drop, hhead, fieldEdit, replacedValue]
          split_ifs
          · rw [List.singleton_append, spliceFrom, if_neg (by dsimp only; omega),
              ih (by omega) le_rfl, slice_self, List.nil_append, ← List.append_assoc,
              ← List.append_assoc, slice_append input hcursor (Nat.le_add_right c _)]
            rfl
          · rw [List.nil_append, ih (by omega) (by omega), slice_append input (by omega) (by omega),
              ← List.append_assoc, slice_append input hcursor (by omega)]

theorem replaceSensitiveFields_eq (input : Bytes) :
    replaceSensitiveFields input = rewriteFields true input := by
  rw [replaceSensitiveFields, splice, spliceFrom_fieldEdits (by omega) le_rfl, slice_self,
    List.nil_append]
  rfl

def nameStart (b : UInt8) : Bool := isAlpha b || b == 95

def isBlank (b : UInt8) : Bool := b == space || b == tab

def isSeparator (b : UInt8) : Bool := b == 58 || b == 61

/-- What `replace_sensitive_fields` takes for a name. -/
structure FieldName (name : Bytes) : Prop where
  start : name.head?.any nameStart = true
  length_le : name.length ≤ 64
  characters : ∀ b ∈ name, fieldCharacter b = true

theorem fieldCharacter_of_nameStart : ∀ b, nameStart b = true → fieldCharacter b = true := by
  decide

theorem not_isQuote_of_fieldCharacter : ∀ b, fieldCharacter b = true → isQuote b = false := by
  decide

theorem scanField_of_no_start {text : Bytes} (hquote : Stops isQuote text)
    (hstart : Stops nameStart text) : scanField text = .noField := by
  unfold scanField
  rw [show text.head?.any isQuote = false from hquote]
  change (if (!text.head?.any nameStart) = true then _ else _) = _
  rw [show text.head?.any nameStart = false from hstart]
  rfl

theorem head_append_of_start {name : Bytes} (hstart : name.head?.any nameStart = true)
    (rest : Bytes) : (name ++ rest).head? = name.head? := by
  cases name with
  | nil => simp at hstart
  | cons b name => rfl

theorem stops_isQuote {text : Bytes} (h : ∀ b ∈ text, isQuote b = false) : Stops isQuote text := by
  cases text with
  | nil => rfl
  | cons b text => exact h b List.mem_cons_self

theorem scanField_of_long_name {name : Bytes} (rest : Bytes)
    (hstart : name.head?.any nameStart = true) (hlong : 64 < name.length)
    (hname : ∀ b ∈ name, fieldCharacter b = true) : scanField (name ++ rest) = .noField := by
  have hunquoted : name.head?.any isQuote = false :=
    stops_isQuote fun b hb => not_isQuote_of_fieldCharacter b (hname b hb)
  have htake : ((name ++ rest).take 64).takeWhile fieldCharacter = name.take 64 := by
    rw [List.take_append_of_le_length hlong.le]
    have hall : (name.take 64 ++ []).takeWhile fieldCharacter = name.take 64 :=
      takeWhile_append (fun b hb => hname b (List.mem_of_mem_take hb)) rfl
    rwa [List.append_nil] at hall
  have hnext : ((name ++ rest).drop (name.take 64).length).head?.any fieldCharacter = true := by
    rw [List.length_take, Nat.min_eq_left hlong.le, List.drop_append_of_le_length hlong.le,
      List.drop_eq_getElem_cons hlong]
    exact hname _ (List.getElem_mem hlong)
  unfold scanField
  simp only [head_append_of_start hstart, hunquoted, Bool.false_eq_true, ↓reduceIte, List.drop_zero,
    htake, hnext]
  exact ite_self _

/-- What cannot stand behind a name without quotes. -/
def isNamePart (b : UInt8) : Bool := fieldCharacter b || isQuote b

theorem Stops.of_namePart {rest : Bytes} (h : Stops isNamePart rest) :
    rest.head?.any fieldCharacter = false ∧ rest.head?.any isQuote = false := by
  cases rest with
  | nil => exact ⟨rfl, rfl⟩
  | cons b rest => simpa [isNamePart] using h

/-- The scan behind a name that no quotes enclose. -/
theorem scanField_name {name blanks tail : Bytes} (hname : FieldName name)
    (hblanks : ∀ b ∈ blanks, isBlank b = true) (htail : Stops isBlank tail)
    (hend : Stops isNamePart (blanks ++ tail)) :
    scanField (name ++ (blanks ++ tail)) =
      if !tail.head?.any isSeparator then .noField
      else
        let spaces := ((tail.drop 1).takeWhile (· == space)).length
        let valueAt := name.length + blanks.length + 1 + spaces
        match tail.drop (1 + spaces) with
        | [] => .inputEnds
        | b :: quoted =>
          if isQuote b then
            let length := (quoted.takeWhile (· != b)).length
            .field ⟨name, valueAt + 1, valueAt + 1 + length, valueAt + 1 + length⟩
          else
            let length := ((tail.drop (1 + spaces)).takeWhile fun c => !valueBoundary c).length
            .field ⟨name, valueAt, valueAt + length, valueAt + length⟩ := by
  obtain ⟨hstart, hlength, hcharacters⟩ := hname
  have hunquoted : name.head?.any isQuote = false :=
    stops_isQuote fun b hb => not_isQuote_of_fieldCharacter b (hcharacters b hb)
  obtain ⟨hstop, hquote⟩ := Stops.of_namePart hend
  have htake := takeWhile_take_append hcharacters hlength hstop
  have hrun : (blanks ++ tail).takeWhile (fun b => b == space || b == tab) = blanks :=
    takeWhile_append hblanks htail
  unfold scanField
  simp only [head_append_of_start hstart, hunquoted, Bool.false_eq_true, ↓reduceIte, List.drop_zero,
    htake, List.drop_left, hstop, hquote, hrun, Nat.zero_add, Nat.add_zero]
  change (if (!name.head?.any nameStart) = true then _ else _) = _
  rw [hstart]
  rfl

/-- A name, a separator and the blanks around it. -/
structure FieldHeader where
  name : Bytes
  blanks : Bytes
  separator : UInt8
  spaces : Bytes
  isName : FieldName name
  isBlanks : ∀ b ∈ blanks, isBlank b = true
  isSeparator : isSeparator separator = true
  isSpaces : ∀ b ∈ spaces, b = space

def FieldHeader.text (h : FieldHeader) : Bytes := h.name ++ (h.blanks ++ h.separator :: h.spaces)

/-- What does not begin with a space or a quote. -/
def PlainValue (text : Bytes) : Prop := Stops (· == space) text ∧ Stops isQuote text

theorem not_isNamePart_of_isBlank : ∀ b, isBlank b = true → isNamePart b = false := by
  decide

theorem not_isNamePart_of_isSeparator :
    ∀ b, isSeparator b = true → isNamePart b = false ∧ isBlank b = false := by
  decide

/-- The length of an unquoted value. -/
def valueLength (text : Bytes) : ℕ := (text.takeWhile fun b => !valueBoundary b).length

theorem scanField_header (h : FieldHeader) {rest : Bytes} (hrest : PlainValue rest) :
    scanField (h.text ++ rest) =
      if rest = [] then .inputEnds
      else .field ⟨h.name, h.text.length, h.text.length + valueLength rest,
        h.text.length + valueLength rest⟩ := by
  obtain ⟨name, blanks, separator, spaces, hname, hblanks, hseparator, hspaces⟩ := h
  obtain ⟨hseparatorEnd, hseparatorBlank⟩ := not_isNamePart_of_isSeparator _ hseparator
  have hend : Stops isNamePart (blanks ++ separator :: (spaces ++ rest)) := by
    cases blanks with
    | nil => exact hseparatorEnd
    | cons b blanks => exact not_isNamePart_of_isBlank b (hblanks b List.mem_cons_self)
  have htail : Stops isBlank (separator :: (spaces ++ rest)) := hseparatorBlank
  have hscan := scanField_name hname hblanks htail hend
  have hrun : (spaces ++ rest).takeWhile (· == space) = spaces :=
    takeWhile_append (fun b hb => by simp [hspaces b hb]) hrest.1
  have hlength : name.length + blanks.length + 1 + spaces.length =
      (name ++ (blanks ++ separator :: spaces)).length := by
    simp only [List.length_append, List.length_cons]
    omega
  have htext : name ++ (blanks ++ separator :: spaces) ++ rest =
      name ++ (blanks ++ separator :: (spaces ++ rest)) := by
    simp
  simp only [FieldHeader.text, htext, hscan, List.head?_cons, Option.any_some, hseparator,
    Bool.not_true, Bool.false_eq_true, ↓reduceIte, List.drop_succ_cons,
    List.drop_zero, hrun, Nat.add_comm 1, List.drop_left, hlength]
  cases rest with
  | nil => rfl
  | cons b rest =>
    have hquote : isQuote b = false := hrest.2
    simp [hquote, valueLength]

theorem not_start_of_valueBoundary :
    ∀ b, valueBoundary b = true → isQuote b = false ∧ nameStart b = false := by
  decide

/-- Whether a field may begin does not matter where a value ends. -/
theorem rewriteFields_of_valueEnd (boundary : Bool) {rest : Bytes}
    (h : Stops (fun b => !valueBoundary b) rest) :
    rewriteFields boundary rest = rewriteFields false rest := by
  cases rest with
  | nil => rw [rewriteFields_nil, rewriteFields_nil]
  | cons b rest =>
    have hboundary : valueBoundary b = true := by simpa using h
    obtain ⟨hquote, hstart⟩ := not_start_of_valueBoundary b hboundary
    rw [rewriteFields_skip fun _ => scanField_of_no_start hquote hstart,
      rewriteFields_skip fun h => Bool.noConfusion h]

theorem rewriteFields_header (h : FieldHeader) {value rest : Bytes}
    (hplain : PlainValue (value ++ rest)) (hvalue : ∀ b ∈ value, valueBoundary b = false)
    (hrest : Stops (fun b => !valueBoundary b) rest) :
    rewriteFields true (h.text ++ (value ++ rest)) =
      h.text ++ replacedValue h.name value ++ rewriteFields false rest := by
  have hscan := scanField_header h hplain
  have hlength : valueLength (value ++ rest) = value.length := by
    rw [valueLength, takeWhile_append (fun b hb => by simp [hvalue b hb]) hrest]
  by_cases hempty : value ++ rest = []
  · obtain ⟨rfl, rfl⟩ := List.append_eq_nil_iff.mp hempty
    rw [if_pos hempty] at hscan
    rw [rewriteFields_inputEnds hscan]
    simp [replacedValue]
  · rw [if_neg hempty, hlength] at hscan
    have hslice : slice (h.text ++ (value ++ rest)) (h.text.length, h.text.length + value.length) =
        value := by
      rw [slice, List.drop_left, Nat.add_sub_cancel_left, List.take_left]
    have hdrop : (h.text ++ (value ++ rest)).drop (h.text.length + value.length) = rest := by
      rw [← List.drop_drop, List.drop_left, List.drop_left]
    rw [rewriteFields_field hscan]
    simp only [List.take_left, hslice, hdrop]
    rw [rewriteFields_of_valueEnd _ hrest]

theorem not_fieldBoundary_of_fieldCharacter :
    ∀ b, fieldCharacter b = true → fieldBoundary b = false := by
  decide

theorem nameStart_ends_header :
    ∀ b, nameStart b = true → isBlank b = false ∧ isSeparator b = false ∧ valueBoundary b = false := by
  decide

/-- A text at a candidate: no field begins, a field begins whose value has not ended, or a
whole field begins. -/
inductive FieldShape (text : Bytes) : Prop
  | noField : (∀ rest, Stops (fun b => !nameStart b) rest → scanField (text ++ rest) = .noField) →
      FieldShape text
  | unfinished (h : FieldHeader) (value : Bytes) : text = h.text ++ value →
      (∀ b ∈ value, valueBoundary b = false) → FieldShape text
  | finished (h : FieldHeader) (value : Bytes) (b : UInt8) (rest : Bytes) :
      text = h.text ++ (value ++ b :: rest) → (∀ b ∈ value, valueBoundary b = false) →
      valueBoundary b = true → PlainValue (value ++ b :: rest) → FieldShape text

theorem stops_append {p : UInt8 → Bool} {text : Bytes} (rest : Bytes) (h : Stops p text)
    (hne : text ≠ []) : Stops p (text ++ rest) := by
  cases text with
  | nil => exact absurd rfl hne
  | cons b text => exact h

/-- The same behind a name. -/
theorem fieldShape_name {name afterName : Bytes} (hname : FieldName name)
    (hstop : Stops fieldCharacter afterName) (hquote : ∀ b ∈ afterName, isQuote b = false)
    (hafter : afterName ≠ []) : FieldShape (name ++ afterName) := by
  obtain ⟨blanks, tail, rfl, hblanks, htail⟩ := exists_run isBlank afterName
  have hend (rest : Bytes) : Stops isNamePart (blanks ++ (tail ++ rest)) := by
    rw [← List.append_assoc]
    refine stops_append rest ?_ hafter
    cases hall : blanks ++ tail with
    | nil => rfl
    | cons b others =>
      rw [hall] at hstop hquote
      rw [stops_cons, isNamePart, stops_cons.mp hstop, hquote b List.mem_cons_self]
      rfl
  cases tail with
  | nil =>
    refine .noField fun rest hrest => ?_
    have hboth : Stops isBlank rest ∧ Stops isSeparator rest := by
      cases rest with
      | nil => exact ⟨rfl, rfl⟩
      | cons b rest =>
        have hb := nameStart_ends_header b (by simpa using hrest)
        exact ⟨hb.1, hb.2.1⟩
    rw [List.append_assoc, List.append_assoc, List.nil_append,
      scanField_name hname hblanks hboth.1 (hend rest), show rest.head?.any isSeparator = false
        from hboth.2]
    rfl
  | cons b tail =>
    cases hseparator : isSeparator b with
    | false =>
      refine .noField fun rest _ => ?_
      have htail' : Stops isBlank (b :: tail ++ rest) := htail
      rw [List.append_assoc, List.append_assoc, scanField_name hname hblanks htail' (hend rest),
        show (b :: tail ++ rest).head?.any isSeparator = false from hseparator]
      rfl
    | true =>
      obtain ⟨spaces, valueOn, rfl, hspaces, hplain⟩ := exists_run (· == space) tail
      obtain ⟨value, rest, rfl, hvalue, hrest⟩ := exists_run (fun b => !valueBoundary b) valueOn
      let h : FieldHeader := ⟨name, blanks, b, spaces, hname, hblanks, hseparator,
        fun c hc => by simpa using hspaces c hc⟩
      have hunquoted : Stops isQuote (value ++ rest) := stops_isQuote fun c hc => hquote c (by
        simp only [List.mem_append, List.mem_cons] at hc ⊢
        tauto)
      cases rest with
      | nil => exact .unfinished h value (by simp [h, FieldHeader.text]) (by simpa using hvalue)
      | cons c rest =>
        exact .finished h value c rest (by simp [h, FieldHeader.text]) (by simpa using hvalue)
          (by simpa using hrest) ⟨hplain, hunquoted⟩

theorem fieldShape {text : Bytes} (hquote : ∀ b ∈ text, isQuote b = false)
    (hend : atBoundary text = true) (hne : text ≠ []) : FieldShape text := by
  cases hstart : text.head?.any nameStart with
  | false =>
    refine .noField fun rest _ => scanField_of_no_start ?_ ?_
    · exact stops_append rest (stops_isQuote hquote) hne
    · exact stops_append rest hstart hne
  | true =>
    obtain ⟨name, afterName, rfl, hcharacters, hstop⟩ := exists_run fieldCharacter text
    have hname : name.head?.any nameStart = true := by
      cases name with
      | nil =>
        cases afterName with
        | nil => exact hstart
        | cons b afterName =>
          rw [stops_cons, fieldCharacter_of_nameStart b hstart] at hstop
          cases hstop
      | cons b name => exact hstart
    have hafter : afterName ≠ [] := by
      rintro rfl
      rw [List.append_nil] at hend hne
      have hlast := hcharacters _ (List.getLast_mem hne)
      rw [atBoundary, List.getLast?_eq_some_getLast hne, Option.all_some,
        not_fieldBoundary_of_fieldCharacter _ hlast] at hend
      cases hend
    by_cases hlength : name.length ≤ 64
    · refine fieldShape_name ⟨hname, hlength, hcharacters⟩ hstop ?_ hafter
      exact fun b hb => hquote b (List.mem_append_right _ hb)
    · refine .noField fun rest _ => ?_
      rw [List.append_assoc]
      exact scanField_of_long_name _ hname (not_le.mp hlength) hcharacters

theorem FieldHeader.length_pos (h : FieldHeader) : 0 < h.text.length := by
  simp only [text, List.length_append, List.length_cons]
  omega

/-- A text that ends while a value is read: behind its last field, which does not itself stand
in a value, no value has ended. -/
def EndsInValue (text : Bytes) : Prop :=
  ∃ (front : Bytes) (h : FieldHeader) (value : Bytes) (_ : text = front ++ (h.text ++ value)),
    atBoundary front = true ∧ (∀ b ∈ value, valueBoundary b = false) ∧ ¬ EndsInValue front
termination_by text.length
decreasing_by
  rename_i heq
  have hlength := h.length_pos
  simp only [heq, List.length_append]
  omega

theorem endsInValue_iff (text : Bytes) : EndsInValue text ↔ ∃ front h value,
    text = front ++ (FieldHeader.text h ++ value) ∧ atBoundary front = true ∧
      (∀ b ∈ value, valueBoundary b = false) ∧ ¬ EndsInValue front := by
  rw [EndsInValue]
  simp only [exists_prop]

theorem not_space_of_not_valueBoundary : ∀ b, valueBoundary b = false → (b == space) = false := by
  decide

/-- A value goes on in a text that begins like a name. -/
theorem plainValue_append {value rest : Bytes} (hvalue : ∀ b ∈ value, valueBoundary b = false)
    (hquote : ∀ b ∈ value, isQuote b = false) (hrest : rest.head?.any nameStart = true) :
    PlainValue (value ++ rest) := by
  cases value with
  | nil =>
    cases rest with
    | nil => exact ⟨rfl, rfl⟩
    | cons b rest =>
      exact ⟨not_space_of_not_valueBoundary b (nameStart_ends_header b hrest).2.2,
        not_isQuote_of_fieldCharacter b (fieldCharacter_of_nameStart b hrest)⟩
  | cons b value =>
    exact ⟨not_space_of_not_valueBoundary b (hvalue b List.mem_cons_self),
      hquote b List.mem_cons_self⟩

theorem length_lt_valueLength {value rest : Bytes} (hvalue : ∀ b ∈ value, valueBoundary b = false)
    (hrest : rest.head?.any nameStart = true) :
    value.length < valueLength (value ++ rest) := by
  cases rest with
  | nil => simp at hrest
  | cons b rest =>
    have hb : valueBoundary b = false := (nameStart_ends_header b hrest).2.2
    rw [valueLength, List.takeWhile_append_of_pos fun c hc => by simp [hvalue c hc],
      List.takeWhile_cons_of_pos (by simp [hb]), List.length_append, List.length_cons]
    omega

/-- No field that the scan comes to in `read` reaches beyond it. -/
def Settled (read rest : Bytes) : Prop :=
  ∀ front behind, read = front ++ behind → behind ≠ [] → atBoundary front = true →
    ¬ EndsInValue front → ∀ f, scanField (behind ++ rest) = .field f → f.valueEnd ≤ behind.length

theorem Settled.not_endsInValue {read rest : Bytes} (h : Settled read rest)
    (hquote : ∀ b ∈ read, isQuote b = false) (hrest : rest.head?.any nameStart = true) :
    ¬ EndsInValue read := by
  intro hends
  obtain ⟨front, header, value, rfl, hfront, hvalue, hbefore⟩ := (endsInValue_iff read).mp hends
  have hunquoted : ∀ b ∈ value, isQuote b = false := fun b hb => hquote b (by simp [hb])
  have hne : value ++ rest ≠ [] := by
    rintro heq
    rw [(List.append_eq_nil_iff.mp heq).2] at hrest
    simp at hrest
  have hscan := scanField_header header (plainValue_append hvalue hunquoted hrest)
  rw [if_neg hne, ← List.append_assoc] at hscan
  have hbound := h front (header.text ++ value) rfl (by simp [FieldHeader.text]) hfront hbefore _
    hscan
  have hlong := length_lt_valueLength hvalue hrest
  rw [List.length_append] at hbound
  dsimp only at hbound
  omega

/-- Behind a byte at which no field begins. -/
theorem Settled.skip {read rest : Bytes} {b : UInt8} (h : Settled read (b :: rest))
    (hskip : atBoundary read = true → scanField (b :: rest) = .noField) :
    Settled (read ++ [b]) rest := by
  intro front behind heq hne hfront hbefore f hscan
  obtain ⟨behind, c, rfl⟩ := List.eq_nil_or_concat' behind |>.resolve_left hne
  rw [← List.append_assoc] at heq
  obtain ⟨rfl, hc⟩ := List.append_inj' heq rfl
  cases hc
  rw [List.append_assoc, List.singleton_append] at hscan
  rw [List.length_append]
  by_cases hempty : behind = []
  · subst hempty
    rw [List.append_nil] at hskip
    rw [List.nil_append, hskip hfront] at hscan
    cases hscan
  · have hbound := h front behind rfl hempty hfront hbefore f hscan
    omega

/-- Inside a whole field only its value has places where another one could begin. -/
theorem value_of_split {h : FieldHeader} {value behind front : Bytes} {b : UInt8}
    (heq : h.text ++ (value ++ [b]) = front ++ behind) (hfront : atBoundary front = true)
    (hne : front ≠ []) (hbehind : behind.head?.any nameStart = true) :
    ∃ inner, front = h.text ++ inner ∧ inner <+: value := by
  -- What follows the place is neither a blank nor a separator.
  have hhead {c : UInt8} {others : Bytes} (hc : behind = c :: others) :
      isBlank c = false ∧ isSeparator c = false := by
    rw [hc] at hbehind
    exact ⟨(nameStart_ends_header c hbehind).1, (nameStart_ends_header c hbehind).2.1⟩
  rw [FieldHeader.text, List.append_assoc, List.append_assoc, List.cons_append] at heq
  rcases List.append_eq_append_iff.mp heq with ⟨afterName, rfl, hone⟩ | ⟨others, hname, -⟩
  · rcases List.append_eq_append_iff.mp hone with ⟨afterBlanks, rfl, htwo⟩ | ⟨others, hblanks, htwo⟩
    · cases afterBlanks with
      | nil =>
        have := (hhead htwo.symm).2
        rw [h.isSeparator] at this
        cases this
      | cons c afterSeparator =>
        obtain ⟨rfl, hthree⟩ := List.cons_eq_cons.mp htwo
        rcases List.append_eq_append_iff.mp hthree with ⟨inner, rfl, hfour⟩ |
          ⟨others, hspaces, hfour⟩
        · refine ⟨inner, by simp [FieldHeader.text], ?_⟩
          rcases List.append_eq_append_iff.mp hfour with ⟨beyond, rfl, hfive⟩ | ⟨others, rfl, -⟩
          · have hbeyond : beyond = [] := by
              cases behind with
              | nil => simp at hbehind
              | cons c behind =>
                rcases List.append_eq_singleton_iff.mp hfive.symm with ⟨hempty, -⟩ | ⟨-, hnone⟩
                · exact hempty
                · cases hnone
            rw [hbeyond, List.append_nil]
          · exact List.prefix_append _ _
        · cases others with
          | nil => exact ⟨[], by simp [FieldHeader.text, hspaces], List.nil_prefix⟩
          | cons c others =>
            have hspace : c = space := h.isSpaces c (by simp [hspaces])
            have := (hhead hfour).1
            rw [hspace] at this
            cases this
    · cases others with
      | nil =>
        have := (hhead htwo).2
        rw [h.isSeparator] at this
        cases this
      | cons c others =>
        have := (hhead htwo).1
        rw [h.isBlanks c (by simp [hblanks])] at this
        cases this
  · have hlast := h.isName.characters _ (by
      rw [hname]
      exact List.mem_append_left _ (List.getLast_mem hne))
    rw [atBoundary, List.getLast?_eq_some_getLast hne, Option.all_some,
      not_fieldBoundary_of_fieldCharacter _ hlast] at hfront
    cases hfront

theorem head_of_scanField {text : Bytes} {f : FieldAt} (hquote : Stops isQuote text)
    (h : scanField text = .field f) : text.head?.any nameStart = true := by
  cases hstart : text.head?.any nameStart with
  | true => rfl
  | false =>
    rw [scanField_of_no_start hquote hstart] at h
    cases h

/-- Behind a whole field and the byte that ends its value. -/
theorem Settled.finish {read rest value : Bytes} {h : FieldHeader} {b : UInt8}
    (hsettled : Settled read (h.text ++ (value ++ b :: rest)))
    (hread : atBoundary read = true) (hends : ¬ EndsInValue read)
    (hvalue : ∀ c ∈ value, valueBoundary c = false) (hb : valueBoundary b = true)
    (hplain : PlainValue (value ++ b :: rest))
    (hquote : ∀ c ∈ h.text ++ (value ++ [b]), isQuote c = false) :
    Settled (read ++ (h.text ++ (value ++ [b]))) rest := by
  intro front behind heq hne hfront hbefore f hscan
  have hwhole (hbehind : behind = h.text ++ (value ++ [b])) : f.valueEnd ≤ behind.length := by
    have hlength : valueLength (value ++ b :: rest) = value.length := by
      rw [valueLength, takeWhile_append (fun c hc => by simp [hvalue c hc]) (by simp [hb])]
    have htext : h.text ++ (value ++ [b]) ++ rest = h.text ++ (value ++ b :: rest) := by simp
    rw [hbehind, htext, scanField_header h hplain, if_neg (by simp), hlength] at hscan
    cases hscan
    simp only [hbehind, List.length_append]
    omega
  rcases List.append_eq_append_iff.mp heq with ⟨inside, rfl, hsplit⟩ | ⟨older, rfl, hsplit⟩
  · by_cases hinside : inside = []
    · rw [hinside, List.nil_append] at hsplit
      exact hwhole hsplit.symm
    · have hunquoted : Stops isQuote behind := stops_isQuote fun c hc =>
        hquote c (hsplit ▸ List.mem_append_right _ hc)
      have hstart := head_of_scanField (stops_append rest hunquoted hne) hscan
      rw [List.head?_append_of_ne_nil _ hne] at hstart
      rw [atBoundary_append _ hinside] at hfront
      obtain ⟨inner, rfl, hinner⟩ := value_of_split hsplit hfront hinside hstart
      exact absurd ((endsInValue_iff _).mpr ⟨read, h, inner, rfl, hread,
        fun c hc => hvalue c (hinner.subset hc), hends⟩) hbefore
  · by_cases holder : older = []
    · rw [holder, List.nil_append] at hsplit
      exact hwhole hsplit
    · have htext : behind ++ rest = older ++ (h.text ++ (value ++ b :: rest)) := by
        rw [hsplit]
        simp
      rw [htext] at hscan
      have hbound := hsettled front older rfl holder hfront hbefore f hscan
      rw [hsplit, List.length_append]
      omega

/-- The scan comes to the end of a text as to a place where a field may begin. -/
def Resynchronises (boundary : Bool) (text rest : Bytes) : Prop :=
  rewriteFields boundary (text ++ rest) = rewriteFields boundary text ++ rewriteFields true rest

/-- The scan comes to the end of a text inside a value that began in it. -/
def RunsOn (boundary : Bool) (text rest : Bytes) : Prop :=
  ∃ out h value, (∀ b ∈ value, valueBoundary b = false) ∧ (∀ b ∈ value, isQuote b = false) ∧
    rewriteFields boundary (text ++ rest) =
      out ++ rewriteFields true (FieldHeader.text h ++ (value ++ rest)) ∧
    rewriteFields boundary text = out ++ rewriteFields true (h.text ++ value)

theorem rewriteFields_finished (h : FieldHeader) {value rest : Bytes} {b : UInt8}
    (hplain : PlainValue (value ++ b :: rest)) (hvalue : ∀ c ∈ value, valueBoundary c = false)
    (hb : valueBoundary b = true) :
    rewriteFields true (h.text ++ (value ++ b :: rest)) =
      h.text ++ replacedValue h.name value ++ [b] ++ rewriteFields (fieldBoundary b) rest := by
  rw [rewriteFields_header h hplain hvalue (by simp [hb]),
    rewriteFields_skip fun h => Bool.noConfusion h, List.append_assoc _ [b], List.singleton_append]

/-- What has been written before does not matter. -/
theorem resynchronises_or_runsOn {boundary boundary' : Bool} {text text' rest read : Bytes}
    (out : Bytes) (hboth : rewriteFields boundary (text ++ rest) =
      out ++ rewriteFields boundary' (text' ++ rest))
    (halone : rewriteFields boundary text = out ++ rewriteFields boundary' text')
    (h : (¬ EndsInValue read ∧ Resynchronises boundary' text' rest) ∨
      (EndsInValue read ∧ RunsOn boundary' text' rest)) :
    (¬ EndsInValue read ∧ Resynchronises boundary text rest) ∨
      (EndsInValue read ∧ RunsOn boundary text rest) := by
  rcases h with ⟨hends, hresumes⟩ | ⟨hends, before, header, value, hvalue, hquote, hon, hoff⟩
  · refine .inl ⟨hends, ?_⟩
    rw [Resynchronises, hboth, hresumes, halone, List.append_assoc]
  · refine .inr ⟨hends, out ++ before, header, value, hvalue, hquote, ?_, ?_⟩
    · rw [hboth, hon, List.append_assoc]
    · rw [halone, hoff, List.append_assoc]

/-- A scan does one of the two, and `EndsInValue` says which. -/
theorem rewriteFields_append {rest : Bytes} (hrest : rest.head?.any nameStart = true)
    (read text : Bytes) (hquote : ∀ b ∈ read ++ text, isQuote b = false)
    (hend : atBoundary (read ++ text) = true) (hsettled : Settled read (text ++ rest)) :
    (¬ EndsInValue (read ++ text) ∧ Resynchronises (atBoundary read) text rest) ∨
      (EndsInValue (read ++ text) ∧ RunsOn (atBoundary read) text rest) := by
  induction hlength : text.length using Nat.strong_induction_on generalizing read text with
  | _ n ih =>
    have hreadQuote : ∀ b ∈ read, isQuote b = false := fun b hb =>
      hquote b (List.mem_append_left _ hb)
    have htextQuote : ∀ b ∈ text, isQuote b = false := fun b hb =>
      hquote b (List.mem_append_right _ hb)
    cases text with
    | nil =>
      rw [List.append_nil] at hend ⊢
      refine .inl ⟨hsettled.not_endsInValue hreadQuote hrest, ?_⟩
      rw [Resynchronises, hend, rewriteFields_nil, List.nil_append]
      rfl
    | cons b text =>
      -- A byte at which no field begins is passed over.
      have hpass (hskip : ∀ rest, Stops (fun b => !nameStart b) rest → atBoundary read = true →
          scanField (b :: (text ++ rest)) = .noField) :
          (¬ EndsInValue (read ++ b :: text) ∧ Resynchronises (atBoundary read) (b :: text) rest) ∨
            (EndsInValue (read ++ b :: text) ∧ RunsOn (atBoundary read) (b :: text) rest) := by
        have hstops : Stops (fun b => !nameStart b) rest := by
          cases rest with
          | nil => rfl
          | cons c rest => simpa using hrest
        have hon := rewriteFields_skip (hskip rest hstops)
        have hoff := rewriteFields_skip (hskip [] rfl)
        rw [List.append_nil] at hoff
        have hshorter : text.length < n := by
          rw [← hlength]
          exact Nat.lt_succ_self _
        have hnext := ih text.length hshorter (read ++ [b]) text (by simpa using hquote)
          (by simpa using hend) (hsettled.skip (hskip rest hstops)) rfl
        rw [atBoundary_concat, List.append_assoc, List.singleton_append] at hnext
        exact resynchronises_or_runsOn [b] hon hoff hnext
      cases hread : atBoundary read with
      | false => exact hread ▸ hpass fun _ _ hboundary => by simp [hread] at hboundary
      | true =>
        have hlast : atBoundary (b :: text) = true := by
          rwa [atBoundary_append _ (List.cons_ne_nil _ _)] at hend
        rcases fieldShape htextQuote hlast (List.cons_ne_nil _ _) with hnone |
          ⟨h, value, htext, hvalue⟩ | ⟨h, value, c, after, htext, hvalue, hc, hplain⟩
        · exact hread ▸ hpass fun rest hrest _ => hnone rest hrest
        · have hbegins : ((b :: text) ++ rest).head?.any nameStart = true := by
            rw [htext, FieldHeader.text, List.append_assoc, List.append_assoc]
            rw [head_append_of_start h.isName.start]
            exact h.isName.start
          have hunquoted : ∀ c ∈ value, isQuote c = false := fun c hc =>
            htextQuote c (htext ▸ List.mem_append_right _ hc)
          rw [htext] at hsettled hbegins ⊢
          refine .inr ⟨(endsInValue_iff _).mpr ⟨read, h, value, rfl, hread, hvalue,
            hsettled.not_endsInValue hreadQuote hbegins⟩, [], h, value, hvalue, hunquoted, ?_, rfl⟩
          rw [List.append_assoc]
          rfl
        · have hbegins : ((b :: text) ++ rest).head?.any nameStart = true := by
            rw [htext, FieldHeader.text, List.append_assoc, List.append_assoc]
            rw [head_append_of_start h.isName.start]
            exact h.isName.start
          have hends := hsettled.not_endsInValue hreadQuote hbegins
          have hplain' : PlainValue (value ++ c :: (after ++ rest)) := by
            have hne : value ++ c :: after ≠ [] := by simp
            have hboth := And.intro (stops_append rest hplain.1 hne) (stops_append rest hplain.2 hne)
            rwa [List.append_assoc, List.cons_append] at hboth
          have hshorter : after.length < n := by
            rw [← hlength, htext]
            simp only [List.length_append, List.length_cons]
            omega
          have hsplit : read ++ (h.text ++ (value ++ c :: after)) =
              read ++ (h.text ++ (value ++ [c])) ++ after := by simp
          have hwhole : h.text ++ (value ++ c :: after) ++ rest =
              h.text ++ (value ++ c :: (after ++ rest)) := by simp
          have hlastByte : read ++ (h.text ++ (value ++ [c])) = read ++ h.text ++ value ++ [c] := by
            simp
          rw [htext, hsplit] at hquote hend
          rw [htext, hwhole] at hsettled
          have hfinish := hsettled.finish hread hends hvalue hc hplain' fun d hd =>
            hquote d (List.mem_append_left _ (List.mem_append_right _ hd))
          have hnext := ih after.length hshorter _ after hquote hend hfinish rfl
          rw [hlastByte, atBoundary_concat, ← hlastByte, ← hsplit, ← htext] at hnext
          refine resynchronises_or_runsOn (h.text ++ replacedValue h.name value ++ [c]) ?_ ?_ hnext
          · rw [htext, hwhole, rewriteFields_finished h hplain' hvalue hc]
          · rw [htext, rewriteFields_finished h hplain hvalue hc]

theorem settled_nil (rest : Bytes) : Settled [] rest := by
  intro front behind heq hne
  exact absurd (List.append_eq_nil_iff.mp heq.symm).2 hne

theorem contains_eq_false {needle s : Bytes} {b : UInt8} (hb : b ∈ needle) (hs : b ∉ s) :
    contains s needle = false := by
  rw [contains, find, if_pos (Nat.zero_le _), List.drop_zero, Option.isSome_map]
  cases h : indexOf needle s with
  | none => rfl
  | some n =>
    obtain ⟨front, behind, rfl, -⟩ := Occurrences.exists_of_indexOf h
    exact absurd (List.mem_append_right front (List.mem_append_left behind hb)) hs

theorem replacedValue_plain {name value : Bytes} (hkind : classifyField name ≠ .none)
    (hne : value ≠ []) (hvalue : ∀ b ∈ value, fieldCharacter b = true) :
    replacedValue name value = marker (classifyField name) := by
  have hopen : contains value (bytes "\x7b\x7b") = false :=
    contains_eq_false (b := 123) (by decide) fun hmem => absurd (hvalue _ hmem) (by decide)
  have hclose : contains value (bytes "\x7d\x7d") = false :=
    contains_eq_false (b := 125) (by decide) fun hmem => absurd (hvalue _ hmem) (by decide)
  rw [replacedValue, if_pos ⟨hkind, hne, by simp [hopen], by simp [hclose]⟩]

theorem isSeparator_not_mem_marker {b : UInt8} (hb : isSeparator b = true)
    (kind : PrivacyTokenKind) : b ∉ marker kind := by
  simp only [isSeparator, Bool.or_eq_true, beq_iff_eq] at hb
  rcases hb with rfl | rfl
  all_goals
    cases kind
    all_goals decide

theorem getLast_marker {kind : PrivacyTokenKind} (h : kind ≠ .none) :
    (marker kind).getLast? = some 125 := by
  cases kind
  case none => exact absurd rfl h
  all_goals decide

/-- A value that has run on into a field is not that value and the field in its turn. -/
theorem replacedValue_append_ne (owner value name : Bytes) {field : Bytes} {separator : UInt8}
    {kind : PrivacyTokenKind} (hseparator : isSeparator separator = true) (hkind : kind ≠ .none)
    (hne : field ≠ []) (hfield : ∀ b ∈ field, fieldCharacter b = true) :
    replacedValue owner (value ++ (name ++ separator :: field)) ≠
      replacedValue owner value ++ (name ++ separator :: marker kind) := by
  intro heq
  rw [replacedValue] at heq
  split_ifs at heq
  · refine isSeparator_not_mem_marker hseparator (classifyField owner) ?_
    rw [heq]
    simp
  · have hlast := congrArg List.getLast? heq
    have hmarker : marker kind ≠ [] := by
      intro hempty
      have := getLast_marker hkind
      rw [hempty] at this
      cases this
    rw [← List.append_assoc, ← List.append_assoc,
      List.getLast?_append_of_ne_nil _ (List.cons_ne_nil _ _),
      List.getLast?_append_of_ne_nil _ (List.cons_ne_nil _ _),
      List.getLast?_cons_of_ne_nil hne, List.getLast?_cons_of_ne_nil hmarker,
      getLast_marker hkind, List.getLast?_eq_some_getLast hne] at hlast
    have hbrace := hfield _ (List.getLast_mem hne)
    rw [Option.some.inj hlast] at hbrace
    exact absurd hbrace (by decide)

/-- A name and the separator right behind it. -/
def FieldHeader.direct {name : Bytes} {separator : UInt8} (hname : FieldName name)
    (hseparator : PrivacyAnonymizer.isSeparator separator = true) : FieldHeader where
  name := name
  blanks := []
  separator := separator
  spaces := []
  isName := hname
  isBlanks := nofun
  isSeparator := hseparator
  isSpaces := nofun

theorem not_valueBoundary_of_fieldCharacter :
    ∀ b, fieldCharacter b = true → valueBoundary b = false := by
  decide

theorem not_valueBoundary_of_isSeparator :
    ∀ b, isSeparator b = true → valueBoundary b = false ∧ isQuote b = false := by
  decide

theorem plainValue_of_fieldCharacters {value : Bytes} (rest : Bytes) (hne : value ≠ [])
    (hvalue : ∀ b ∈ value, fieldCharacter b = true) : PlainValue (value ++ rest) := by
  cases value with
  | nil => exact absurd rfl hne
  | cons b value =>
    have hb := hvalue b List.mem_cons_self
    exact ⟨not_space_of_not_valueBoundary b (not_valueBoundary_of_fieldCharacter b hb),
      not_isQuote_of_fieldCharacter b hb⟩

/-- A sensitive field with a plain value, and the text around it. -/
structure SensitiveField (before name : Bytes) (separator : UInt8) (value after : Bytes) :
    Prop where
  unquoted : ∀ b ∈ before, isQuote b = false
  boundary : atBoundary before = true
  isName : FieldName name
  kind_ne : classifyField name ≠ .none
  isSeparator : isSeparator separator = true
  value_ne : value ≠ []
  characters : ∀ b ∈ value, fieldCharacter b = true
  valueEnd : Stops (fun b => !valueBoundary b) after

namespace SensitiveField

variable {before name value after : Bytes} {separator : UInt8}

theorem starts (h : SensitiveField before name separator value after) :
    (name ++ separator :: (value ++ after)).head?.any nameStart = true := by
  rw [head_append_of_start h.isName.start]
  exact h.isName.start

theorem rewriteFields_eq (h : SensitiveField before name separator value after) :
    rewriteFields true (name ++ separator :: (value ++ after)) =
      name ++ separator :: marker (classifyField name) ++ rewriteFields true after := by
  let header := FieldHeader.direct h.isName h.isSeparator
  have htext : header.text = name ++ [separator] := rfl
  have hrest : name ++ separator :: (value ++ after) = header.text ++ (value ++ after) := by
    simp [htext]
  rw [hrest, rewriteFields_header header
    (plainValue_of_fieldCharacters after h.value_ne h.characters)
    (fun b hb => not_valueBoundary_of_fieldCharacter b (h.characters b hb)) h.valueEnd,
    ← rewriteFields_of_valueEnd true h.valueEnd, htext, show header.name = name from rfl,
    replacedValue_plain h.kind_ne h.value_ne h.characters]
  simp

/-- What becomes of the text when the scan finds the field. -/
def Found (before name : Bytes) (separator : UInt8) (value after : Bytes) : Prop :=
  replaceSensitiveFields (before ++ (name ++ separator :: (value ++ after))) =
    replaceSensitiveFields before ++ (name ++ separator :: marker (classifyField name)) ++
      replaceSensitiveFields after

theorem found (h : SensitiveField before name separator value after)
    (hends : ¬ EndsInValue before) : Found before name separator value after := by
  rcases rewriteFields_append h.starts [] before h.unquoted h.boundary (settled_nil _) with
    ⟨-, hresumes⟩ | ⟨hbad, -⟩
  · have hon : rewriteFields true (before ++ _) = rewriteFields true before ++ _ := hresumes
    rw [Found, replaceSensitiveFields_eq, replaceSensitiveFields_eq, replaceSensitiveFields_eq, hon,
      h.rewriteFields_eq, List.append_assoc, List.append_assoc, List.append_assoc]
  · exact absurd hbad hends

theorem not_found (h : SensitiveField before name separator value after)
    (hends : EndsInValue before) : ¬ Found before name separator value after := by
  rcases rewriteFields_append h.starts [] before h.unquoted h.boundary (settled_nil _) with
    ⟨hbad, -⟩ | ⟨-, out, header, inner, hinner, hinnerQuote, hon, hoff⟩
  · exact absurd hends hbad
  · have hon' : rewriteFields true (before ++ _) = out ++ _ := hon
    have hoff' : rewriteFields true before = out ++ _ := hoff
    -- The open value takes in the whole field.
    have hwhole : inner ++ (name ++ separator :: (value ++ after)) =
        inner ++ (name ++ separator :: value) ++ after := by simp
    have hwholeEnd : ∀ b ∈ inner ++ (name ++ separator :: value), valueBoundary b = false := by
      intro b hb
      simp only [List.mem_append, List.mem_cons] at hb
      rcases hb with hb | hb | rfl | hb
      · exact hinner b hb
      · exact not_valueBoundary_of_fieldCharacter b (h.isName.characters b hb)
      · exact (not_valueBoundary_of_isSeparator b h.isSeparator).1
      · exact not_valueBoundary_of_fieldCharacter b (h.characters b hb)
    have hplain := plainValue_append hinner hinnerQuote h.starts
    have hinnerPlain : PlainValue (inner ++ []) := by
      cases inner with
      | nil => exact ⟨rfl, rfl⟩
      | cons b inner => exact ⟨not_space_of_not_valueBoundary b (hinner b List.mem_cons_self),
          hinnerQuote b List.mem_cons_self⟩
    have halone := rewriteFields_header header hinnerPlain hinner rfl
    rw [List.append_nil, rewriteFields_nil, List.append_nil] at halone
    rw [hwhole] at hplain
    rw [Found, replaceSensitiveFields_eq, replaceSensitiveFields_eq, replaceSensitiveFields_eq,
      hon', hoff', hwhole, rewriteFields_header header hplain hwholeEnd h.valueEnd, halone,
      ← rewriteFields_of_valueEnd true h.valueEnd]
    intro heq
    have hcancel : out ++ header.text ++
        replacedValue header.name (inner ++ (name ++ separator :: value)) ++
          rewriteFields true after =
        out ++ header.text ++ (replacedValue header.name inner ++
          (name ++ separator :: marker (classifyField name))) ++ rewriteFields true after := by
      simpa only [List.append_assoc] using heq
    exact replacedValue_append_ne header.name inner name h.isSeparator h.kind_ne h.value_ne
      h.characters (List.append_cancel_left (List.append_cancel_right hcancel))

end SensitiveField

/-- The scan replaces the value of a sensitive field unless the text before it ends in a value. -/
theorem replaceSensitiveFields_finds {before name value after : Bytes} {separator : UInt8}
    (h : SensitiveField before name separator value after) :
    SensitiveField.Found before name separator value after ↔ ¬ EndsInValue before :=
  ⟨fun hfound hends => h.not_found hends hfound, h.found⟩

/-- A text without a separator ends in no value. -/
theorem not_endsInValue_of_no_separator {text : Bytes}
    (h : ∀ b ∈ text, isSeparator b = false) : ¬ EndsInValue text := by
  intro hends
  obtain ⟨front, header, value, rfl, -⟩ := (endsInValue_iff text).mp hends
  have hnone := h header.separator (by simp [FieldHeader.text])
  rw [header.isSeparator] at hnone
  cases hnone

/-- The first field of a nested object, behind a word. -/
theorem replaceSensitiveFields_finds_object : SensitiveField.Found (bytes "login \x7b")
    (bytes "name") 58 (bytes "alice") (bytes "\x7d") := by
  have h : SensitiveField (bytes "login \x7b") (bytes "name") 58 (bytes "alice") (bytes "\x7d") :=
    ⟨by decide, by decide, ⟨by decide, by decide, by decide⟩, by decide, by decide,
      by decide, by decide, by decide⟩
  exact (replaceSensitiveFields_finds h).mpr (not_endsInValue_of_no_separator (by decide))

/-- The value of `data` runs on over the brace, so that the field inside is not looked at. -/
theorem replaceSensitiveFields_misses :
    ¬ ∀ (before name value after : Bytes) (separator : UInt8),
      SensitiveField before name separator value after →
        SensitiveField.Found before name separator value after := by
  intro hall
  have h : SensitiveField (bytes "data=\x7b") (bytes "name") 61 (bytes "alice") (bytes "\x7d") :=
    ⟨by decide, by decide, ⟨by decide, by decide, by decide⟩, by decide, by decide,
      by decide, by decide, by decide⟩
  have hdata : FieldName (bytes "data") := ⟨by decide, by decide, by decide⟩
  have hsep : isSeparator 61 = true := by decide
  exact h.not_found ((endsInValue_iff _).mpr ⟨[], .direct hdata hsep, bytes "\x7b", rfl,
    rfl, by decide, not_endsInValue_of_no_separator nofun⟩) (hall _ _ _ _ _ h)

end PrivacyAnonymizer
end Application
end LogGenerator
