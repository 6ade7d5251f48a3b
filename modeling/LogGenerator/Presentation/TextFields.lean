import LogGenerator.Application.RenderedInstant
import LogGenerator.Foundation.Numerals
import LogGenerator.Foundation.Occurrences
import LogGenerator.Presentation.CliApp

/-!
# Addresses and dates as text

`valid_ipv4`, `parse_date` and the copies of both in the graphical front end. The
signed `std::from_chars` that they call takes a leading minus sign.
-/

namespace LogGenerator
namespace Presentation

open Ascii Application Domain Gregorian Occurrences

namespace App

/-- The loop of `valid_ipv4` from `start` on; `none` where it returns `false`. -/
def ipv4Segments (value : Bytes) : ℕ → ℕ → ℕ → Option ℕ
  | 0, _, _ => none
  | fuel + 1, start, segments =>
    if value.length < start then some segments
    else
      let stop := find value [46] start
      let part := slice value (start, stop.getD value.length)
      if part = [] ∨ 3 < part.length then none
      else
        match fromCharsSigned (2 ^ 31 - 1) part with
        | some (number, []) =>
          if number < 0 ∨ 255 < number then none
          else
            match stop with
            | none => some (segments + 1)
            | some stop => ipv4Segments value fuel (stop + 1) (segments + 1)
        | _ => none

def validIpv4 (value : Bytes) : Bool := ipv4Segments value (value.length + 1) 0 0 == some 4

/-- The number of the day. -/
def parseIsoDate (value : Bytes) : Option ℤ :=
  if value.length ≠ 10 ∨ value[4]? ≠ some minus ∨ value[7]? ≠ some minus then none
  else
    match fromCharsSigned (2 ^ 31 - 1) (value.take 4), fromChars (2 ^ 32 - 1) ((value.drop 5).take 2),
      fromChars (2 ^ 32 - 1) (value.drop 8) with
    | some (year, []), some (month, []), some (day, []) =>
      if IsDate year month day then some (dayNumber year month day) else none
    | _, _, _ => none

end App

section Addresses

variable {part value : Bytes}

/-- One to three digits for a number up to 255. -/
structure IsOctet (part : Bytes) : Prop where
  ne_nil : part ≠ []
  length_le : part.length ≤ 3
  digits : ∀ b ∈ part, isDigit b = true
  value_le : decimalValue part ≤ 255

/-- A zero with a minus sign. -/
def IsSignedZero (part : Bytes) : Prop := part = bytes "-0" ∨ part = bytes "-00"

def IsDottedQuad (value : Bytes) : Prop :=
  ∃ parts : List Bytes, value = [46].intercalate parts ∧ parts.length = 4 ∧
    ∀ part ∈ parts, IsOctet part

/-- Four parts, each an octet or a signed zero, and at least one of them a signed zero. -/
def HasSignedZero (value : Bytes) : Prop :=
  ∃ parts : List Bytes, value = [46].intercalate parts ∧ parts.length = 4 ∧
    (∀ part ∈ parts, IsOctet part ∨ IsSignedZero part) ∧ ∃ part ∈ parts, IsSignedZero part

theorem IsOctet.not_signedZero (h : IsOctet part) : ¬ IsSignedZero part := by
  rintro (rfl | rfl)
  all_goals exact absurd (h.digits minus (by decide)) (by decide)

theorem dot_not_mem (h : IsOctet part ∨ IsSignedZero part) : (46 : UInt8) ∉ part := by
  intro hmem
  rcases h with h | rfl | rfl
  · exact absurd (h.digits 46 hmem) (by decide)
  · exact absurd hmem (by decide)
  · exact absurd hmem (by decide)

/-- One or two zeros are the short digit strings of value zero. -/
theorem zeros_of_decimalValue {ds : Bytes} (hne : ds ≠ []) (hlength : ds.length ≤ 2)
    (hdigits : ∀ b ∈ ds, isDigit b = true) (h : decimalValue ds = 0) :
    ds = bytes "0" ∨ ds = bytes "00" := by
  have hzeros : ∀ n, decimalValue (List.replicate n (digit 0)) = 0 := fun n => by
    simpa [decimalValue] using decimalValue_zeros n []
  have hds : ds = List.replicate ds.length (digit 0) := by
    apply eq_of_decimalValue_eq hdigits
    · intro b hb
      rw [List.eq_of_mem_replicate hb]
      decide
    · rw [List.length_replicate]
    · rw [h, hzeros]
  have hpos := List.length_pos_iff.mpr hne
  rw [hds]
  interval_cases ds.length
  · exact .inl (by decide)
  · exact .inr (by decide)

theorem validIpv4Part_iff_read : CliApp.validIpv4Part part = true ↔
    part.length ≤ 3 ∧ ∃ z, fromCharsSigned (2 ^ 31 - 1) part = some (z, []) ∧ 0 ≤ z ∧ z ≤ 255 := by
  have hnil : fromCharsSigned (2 ^ 31 - 1) [] = none := by decide
  unfold CliApp.validIpv4Part
  constructor
  · intro h
    simp only [Bool.and_eq_true, decide_eq_true_eq] at h
    obtain ⟨⟨-, hlength⟩, hread⟩ := h
    split at hread
    · next z hz => exact ⟨hlength, z, hz, by simpa using hread⟩
    · cases hread
  · rintro ⟨hlength, z, hz, hrange⟩
    have hne : part ≠ [] := by
      rintro rfl
      rw [hnil] at hz
      cases hz
    rw [hz]
    simp [hne, hlength, hrange]

/-- A signed zero passes for an octet. -/
theorem validIpv4Part_iff :
    CliApp.validIpv4Part part = true ↔ IsOctet part ∨ IsSignedZero part := by
  rw [validIpv4Part_iff_read]
  constructor
  · rintro ⟨hlength, z, hz, hlow, hhigh⟩
    rcases fromCharsSigned_eq_some_nil.mp hz with ⟨ds, rfl, n, hn, rfl⟩ | ⟨n, hn, rfl⟩
    · obtain ⟨hne, hdigits, rfl, -⟩ := fromChars_eq_some_nil.mp hn
      have hzero : decimalValue ds = 0 := by omega
      right
      rcases zeros_of_decimalValue hne (Nat.le_of_succ_le_succ hlength) hdigits hzero with rfl | rfl
      · exact .inl (by decide)
      · exact .inr (by decide)
    · obtain ⟨hne, hdigits, rfl, -⟩ := fromChars_eq_some_nil.mp hn
      exact .inl ⟨hne, hlength, hdigits, by exact_mod_cast hhigh⟩
  · rintro (h | rfl | rfl)
    · refine ⟨h.length_le, decimalValue part, ?_, by omega, by exact_mod_cast h.value_le⟩
      rw [fromCharsSigned_eq_some_nil]
      right
      have hrange := h.value_le
      exact ⟨_, fromChars_eq_some_nil.mpr ⟨h.ne_nil, h.digits, rfl, by omega⟩, rfl⟩
    · exact ⟨by decide, 0, by decide⟩
    · exact ⟨by decide, 0, by decide⟩

theorem validIpv4_iff_splitOn : CliApp.validIpv4 value = true ↔
    (value.splitOn 46).length = 4 ∧ ∀ part ∈ value.splitOn 46, IsOctet part ∨ IsSignedZero part := by
  unfold CliApp.validIpv4
  simp only [Bool.and_eq_true, decide_eq_true_eq, List.all_eq_true, validIpv4Part_iff]
  exact and_comm

/-- The parts of a text of such parts are those between the dots. -/
theorem exists_parts_iff {Q : List Bytes → Prop}
    (hQ : ∀ parts, Q parts → parts.length = 4 ∧ ∀ part ∈ parts, IsOctet part ∨ IsSignedZero part) :
    (∃ parts : List Bytes, value = [46].intercalate parts ∧ Q parts) ↔ Q (value.splitOn 46) := by
  constructor
  · rintro ⟨parts, rfl, h⟩
    obtain ⟨hlength, hparts⟩ := hQ parts h
    have hne : parts ≠ [] := by
      rintro rfl
      cases hlength
    rw [List.splitOn_intercalate 46 (fun part hpart => dot_not_mem (hparts part hpart)) hne]
    exact h
  · intro h
    exact ⟨value.splitOn 46, (List.intercalate_splitOn 46).symm, h⟩

theorem isDottedQuad_iff : IsDottedQuad value ↔
    (value.splitOn 46).length = 4 ∧ ∀ part ∈ value.splitOn 46, IsOctet part := by
  unfold IsDottedQuad
  apply exists_parts_iff
  rintro parts ⟨hlength, hparts⟩
  exact ⟨hlength, fun part hpart => .inl (hparts part hpart)⟩

theorem hasSignedZero_iff : HasSignedZero value ↔ (value.splitOn 46).length = 4 ∧
    (∀ part ∈ value.splitOn 46, IsOctet part ∨ IsSignedZero part) ∧
      ∃ part ∈ value.splitOn 46, IsSignedZero part := by
  unfold HasSignedZero
  apply exists_parts_iff
  rintro parts ⟨hlength, hparts, -⟩
  exact ⟨hlength, hparts⟩

/-- What is accepted beyond the dotted quads. -/
theorem validIpv4_iff : CliApp.validIpv4 value = true ↔ IsDottedQuad value ∨ HasSignedZero value := by
  rw [validIpv4_iff_splitOn, isDottedQuad_iff, hasSignedZero_iff]
  constructor
  · rintro ⟨hlength, hparts⟩
    by_cases hzero : ∃ part ∈ value.splitOn 46, IsSignedZero part
    · exact .inr ⟨hlength, hparts, hzero⟩
    · push Not at hzero
      exact .inl ⟨hlength, fun part hpart => (hparts part hpart).resolve_right (hzero part hpart)⟩
  · rintro (⟨hlength, hparts⟩ | ⟨hlength, hparts, -⟩)
    · exact ⟨hlength, fun part hpart => .inl (hparts part hpart)⟩
    · exact ⟨hlength, hparts⟩

theorem IsDottedQuad.not_hasSignedZero (h : IsDottedQuad value) : ¬ HasSignedZero value := by
  rw [isDottedQuad_iff] at h
  rw [hasSignedZero_iff]
  rintro ⟨-, -, part, hpart, hzero⟩
  exact (h.2 part hpart).not_signedZero hzero

/-- The tests that a part goes through in the loop. -/
theorem ipv4Segments_test (part : Bytes) (next : Option ℕ) :
    (if part = [] ∨ 3 < part.length then none
    else
      match fromCharsSigned (2 ^ 31 - 1) part with
      | some (number, []) => if number < 0 ∨ 255 < number then none else next
      | _ => none) = if CliApp.validIpv4Part part then next else none := by
  unfold CliApp.validIpv4Part
  by_cases hsize : part = [] ∨ 3 < part.length
  · rw [if_pos hsize]
    rcases hsize with rfl | hlong
    · rfl
    · simp [hlong.not_ge]
  · obtain ⟨hne, hlength⟩ := not_or.mp hsize
    rw [if_neg hsize]
    simp only [ne_eq, hne, not_false_eq_true, decide_true, not_lt.mp hlength, Bool.and_self,
      Bool.true_and]
    generalize fromCharsSigned (2 ^ 31 - 1) part = read
    rcases read with _ | ⟨number, _ | ⟨c, rest⟩⟩
    · rfl
    · by_cases hrange : number < 0 ∨ 255 < number
      · simp only [hrange, if_true]
        rw [if_neg]
        simp only [Bool.and_eq_true, decide_eq_true_eq]
        omega
      · simp only [hrange, if_false]
        rw [if_pos]
        simp only [Bool.and_eq_true, decide_eq_true_eq]
        omega
    · rfl

theorem ipv4Segments_eq {fuel segments : ℕ} (done text : Bytes) (hfuel : text.length < fuel) :
    App.ipv4Segments (done ++ text) fuel done.length segments =
      if (text.splitOn 46).all CliApp.validIpv4Part then
        some (segments + (text.splitOn 46).length)
      else none := by
  induction fuel generalizing segments done text with
  | zero => exact absurd hfuel (Nat.not_lt_zero _)
  | succ fuel ih =>
    have hstart : ¬ (done ++ text).length < done.length := by simp
    rw [App.ipv4Segments, if_neg hstart]
    dsimp only
    rw [find_append, ipv4Segments_test]
    by_cases hdot : (46 : UInt8) ∈ text
    · obtain ⟨part, rest, rfl, hpart⟩ := List.eq_append_cons_of_mem hdot
      have hslice : slice (done ++ (part ++ 46 :: rest)) (done.length, done.length + part.length) =
          part := by
        rw [slice, List.drop_left, Nat.add_sub_cancel_left, List.take_left]
      have hrest : rest.length < fuel := by
        simp only [List.length_append, List.length_cons] at hfuel
        omega
      have hnext : App.ipv4Segments (done ++ (part ++ 46 :: rest)) fuel
          (done.length + part.length + 1) (segments + 1) =
          if (rest.splitOn 46).all CliApp.validIpv4Part then
            some (segments + 1 + (rest.splitOn 46).length)
          else none := by
        rw [← ih (done ++ part ++ [46]) rest hrest]
        simp [Nat.add_assoc]
      rw [indexOf_byte hpart, Option.map_some, Option.getD_some, hslice]
      dsimp only
      rw [hnext, List.splitOn_append_cons_self_of_not_mem hpart, List.all_cons, List.length_cons]
      cases CliApp.validIpv4Part part
      · simp
      · simp only [if_true, Bool.true_and]
        congr 2
        omega
    · have hfree : Free [46] text := fun hoccurs => hdot (hoccurs.subset List.mem_cons_self)
      have hslice : slice (done ++ text) (done.length, (done ++ text).length) = text := by
        rw [slice, List.drop_left, List.length_append, Nat.add_sub_cancel_left, List.take_length]
      rw [indexOf_of_free hfree, Option.map_none, Option.getD_none, hslice,
        List.splitOn_eq_singleton hdot]
      simp

theorem validIpv4_eq (value : Bytes) : App.validIpv4 value = CliApp.validIpv4 value := by
  have h : App.ipv4Segments value (value.length + 1) 0 0 = _ :=
    ipv4Segments_eq [] value (Nat.lt_succ_self value.length)
  rw [App.validIpv4, h, CliApp.validIpv4]
  cases (value.splitOn 46).all CliApp.validIpv4Part
  · rfl
  · simp only [if_true, Nat.zero_add, Bool.true_and]
    rfl

/-- The check accepts the text exactly when it is four octets joined by dots. -/
def AcceptsExactly (valid : Bytes → Bool) (value : Bytes) : Prop :=
  valid value = true ↔ IsDottedQuad value

/-- Both copies are exact but for addresses with a signed zero, which they accept. -/
theorem acceptsExactly_iff (value : Bytes) :
    AcceptsExactly CliApp.validIpv4 value ∧ AcceptsExactly App.validIpv4 value ↔
      ¬ HasSignedZero value := by
  unfold AcceptsExactly
  rw [validIpv4_eq, and_self, validIpv4_iff]
  constructor
  · intro h hzero
    exact (h.mp (.inr hzero)).not_hasSignedZero hzero
  · intro h
    exact or_iff_left h

theorem signedZero_accepted : ¬ ∀ value, AcceptsExactly CliApp.validIpv4 value ∧
    AcceptsExactly App.validIpv4 value := by
  intro h
  have hsplit : (bytes "10.-0.0.1").splitOn 46 =
      [bytes "10", bytes "-0", bytes "0", bytes "1"] := by decide
  have hzero : HasSignedZero (bytes "10.-0.0.1") := by
    rw [hasSignedZero_iff, hsplit]
    refine ⟨rfl, ?_, bytes "-0", by decide, .inl rfl⟩
    simp only [List.mem_cons, List.not_mem_nil, or_false]
    rintro part (rfl | rfl | rfl | rfl)
    · exact .inl ⟨by decide, by decide, by decide, by decide⟩
    · exact .inr (.inl rfl)
    · exact .inl ⟨by decide, by decide, by decide, by decide⟩
    · exact .inl ⟨by decide, by decide, by decide, by decide⟩
  have haccepted := validIpv4_iff.mpr (.inr hzero)
  exact ((h _).1.mp haccepted).not_hasSignedZero hzero

/-- The addresses of accepted arguments have passed the check. -/
theorem validIpv4_of_parseArguments {arguments : List Bytes} {options : CliOptions}
    (h : CliApp.parseArguments arguments = .ok options) :
    CliApp.validIpv4 options.config.sourceIp = true ∧
      CliApp.validIpv4 options.config.destinationIp = true := by
  obtain ⟨rest, command, st, -, -, hfinish⟩ := CliApp.exists_parsed h
  have hkept : options.config.sourceIp = st.options.config.sourceIp ∧
      options.config.destinationIp = st.options.config.destinationIp := by
    rcases CliApp.finish_cases hfinish with ⟨start, stop, -, -, hset⟩ | ⟨-, -, hset⟩
    · obtain ⟨-, rfl⟩ := CliApp.setRange_ok hset
      exact ⟨rfl, rfl⟩
    · obtain ⟨-, rfl⟩ := CliApp.setOffset_ok hset
      exact ⟨rfl, rfl⟩
  have hendpoint : CliApp.checkEndpoint st.options.config = .ok () := by
    unfold CliApp.finish at hfinish
    simp only [bind, Except.bind] at hfinish
    split at hfinish
    · cases hfinish
    split at hfinish
    · cases hfinish
    next hok => exact hok
  unfold CliApp.checkEndpoint at hendpoint
  split_ifs at hendpoint with hinvalid hpacked
  · cases hendpoint
  · cases hendpoint
  · rw [hkept.1, hkept.2]
    simpa using hinvalid

end Addresses

section Dates

variable {text : Bytes} {year month day : ℤ}

/-- `std::format` of the day as `yyyy-MM-dd`. -/
def formatDate (days : ℤ) : Bytes :=
  let (year, month, day) := civilFromDays days
  zeroPadded 4 year ++ minus :: (zeroPadded 2 month ++ minus :: zeroPadded 2 day)

/-- Four digits, two and two with hyphens between them, for the date. -/
def IsIsoDate (text : Bytes) (year month day : ℤ) : Prop :=
  ∃ ys ms ds, text = ys ++ minus :: (ms ++ minus :: ds) ∧ IsNumeral 4 year ys ∧
    IsNumeral 2 month ms ∧ IsNumeral 2 day ds ∧ IsDate year month day

/-- A minus sign and three digits in place of the four. -/
def HasSignedYear (text : Bytes) (year month day : ℤ) : Prop :=
  ∃ ys ms ds, text = minus :: ys ++ minus :: (ms ++ minus :: ds) ∧ IsNumeral 3 (-year) ys ∧
    IsNumeral 2 month ms ∧ IsNumeral 2 day ds ∧ IsDate year month day

theorem eq_take_cons_drop {b : UInt8} {i : ℕ} (h : text[i]? = some b) :
    text = text.take i ++ b :: text.drop (i + 1) := by
  obtain ⟨hlt, hget⟩ := List.getElem?_eq_some_iff.mp h
  conv_lhs => rw [← List.take_append_drop i text, List.drop_eq_getElem_cons hlt, hget]

theorem exists_layout (hlength : text.length = 10) (hfirst : text[4]? = some minus)
    (hsecond : text[7]? = some minus) : ∃ ys ms ds, text = ys ++ minus :: (ms ++ minus :: ds) ∧
      ys.length = 4 ∧ ms.length = 2 ∧ ds.length = 2 := by
  have hsecond' : (text.drop 5)[2]? = some minus := by rw [List.getElem?_drop, hsecond]
  refine ⟨text.take 4, (text.drop 5).take 2, (text.drop 5).drop 3, ?_, ?_, ?_, ?_⟩
  · rw [← eq_take_cons_drop hsecond', ← eq_take_cons_drop hfirst]
  all_goals simp [hlength]

/-- What the two copies compute on a text of the right layout. -/
theorem parseIsoDate_of_layout {ys ms ds : Bytes} (hys : ys.length = 4) (hms : ms.length = 2)
    (hds : ds.length = 2) (n : ℤ) :
    App.parseIsoDate (ys ++ minus :: (ms ++ minus :: ds)) = some n ↔
      ∃ (year : ℤ) (month day : ℕ), fromCharsSigned (2 ^ 31 - 1) ys = some (year, []) ∧
        fromChars (2 ^ 32 - 1) ms = some (month, []) ∧
        fromChars (2 ^ 32 - 1) ds = some (day, []) ∧
        IsDate year month day ∧ n = dayNumber year month day := by
  have hyear : (ys ++ minus :: (ms ++ minus :: ds)).take 4 = ys := by
    rw [← hys, List.take_left]
  have hmonth : ((ys ++ minus :: (ms ++ minus :: ds)).drop 5).take 2 = ms := by
    simp [List.drop_append, List.drop_eq_nil_of_le, hys, hms]
  have hday : (ys ++ minus :: (ms ++ minus :: ds)).drop 8 = ds := by
    simp [List.drop_append, List.drop_eq_nil_of_le, hys, hms]
  have hlayout : ¬ ((ys ++ minus :: (ms ++ minus :: ds)).length ≠ 10 ∨
      (ys ++ minus :: (ms ++ minus :: ds))[4]? ≠ some minus ∨
      (ys ++ minus :: (ms ++ minus :: ds))[7]? ≠ some minus) := by
    simp [hys, hms, hds]
  rw [App.parseIsoDate, if_neg hlayout, hyear, hmonth, hday]
  constructor
  · intro h
    split at h
    · next year month day hyear hmonth hday =>
      split_ifs at h with hdate
      exact ⟨year, month, day, hyear, hmonth, hday, hdate, (Option.some.inj h).symm⟩
    · cases h
  · rintro ⟨year, month, day, hyear, hmonth, hday, hdate, rfl⟩
    rw [hyear, hmonth, hday]
    exact if_pos hdate

/-- The front end and the command line accept the same dates. -/
theorem parseIsoDate_eq (text option : Bytes) :
    App.parseIsoDate text = (CliApp.parseDate text option).toOption := by
  unfold App.parseIsoDate CliApp.parseDate
  split_ifs
  · rfl
  · generalize fromCharsSigned (2 ^ 31 - 1) (text.take 4) = year
    generalize fromChars (2 ^ 32 - 1) ((text.drop 5).take 2) = month
    generalize fromChars (2 ^ 32 - 1) (text.drop 8) = day
    rcases year with _ | ⟨year, _ | ⟨c, rest⟩⟩
    · rfl
    · rcases month with _ | ⟨month, _ | ⟨c, rest⟩⟩
      · rfl
      · rcases day with _ | ⟨day, _ | ⟨c, rest⟩⟩
        · rfl
        · dsimp only
          split_ifs <;> rfl
        · rfl
      · rfl
    · rfl

theorem readYear_iff {ys : Bytes} (hys : ys.length = 4) :
    fromCharsSigned (2 ^ 31 - 1) ys = some (year, []) ↔
      IsNumeral 4 year ys ∨ ∃ zs, ys = minus :: zs ∧ IsNumeral 3 (-year) zs := by
  rw [fromCharsSigned_eq_some_nil]
  constructor
  · rintro (⟨zs, rfl, n, hn, rfl⟩ | ⟨n, hn, rfl⟩)
    · rw [fromChars_eq_some_iff (by decide) (Nat.succ.inj hys) (by decide)] at hn
      exact .inr ⟨zs, rfl, by rwa [neg_neg]⟩
    · exact .inl ((fromChars_eq_some_iff (by decide) hys (by decide)).mp hn)
  · rintro (h | ⟨zs, rfl, h⟩)
    · obtain ⟨hlength, hdigits, rfl⟩ := h
      exact .inr ⟨_, (fromChars_eq_some_iff (by decide) hys (by decide)).mpr
        ⟨hlength, hdigits, rfl⟩, rfl⟩
    · refine .inl ⟨zs, rfl, decimalValue zs, ?_, ?_⟩
      · rw [fromChars_eq_some_iff (by decide) h.length_eq (by decide)]
        exact ⟨h.length_eq, h.digits, rfl⟩
      · rw [h.value_eq, neg_neg]

/-- What is accepted beyond the dates of four digits, two and two. -/
theorem parseIsoDate_iff {n : ℤ} : App.parseIsoDate text = some n ↔
    ∃ year month day, (IsIsoDate text year month day ∨ HasSignedYear text year month day) ∧
      n = dayNumber year month day := by
  constructor
  · intro h
    have hlayout : ¬ (text.length ≠ 10 ∨ text[4]? ≠ some minus ∨ text[7]? ≠ some minus) := by
      intro hbad
      rw [App.parseIsoDate, if_pos hbad] at h
      cases h
    obtain ⟨hlength, hrest⟩ := not_or.mp hlayout
    obtain ⟨hfirst, hsecond⟩ := not_or.mp hrest
    obtain ⟨ys, ms, ds, rfl, hys, hms, hds⟩ :=
      exists_layout (not_not.mp hlength) (not_not.mp hfirst) (not_not.mp hsecond)
    obtain ⟨year, month, day, hyear, hmonth, hday, hdate, rfl⟩ :=
      (parseIsoDate_of_layout hys hms hds n).mp h
    rw [fromChars_eq_some_iff (by decide) hms (by decide)] at hmonth
    rw [fromChars_eq_some_iff (by decide) hds (by decide)] at hday
    refine ⟨year, month, day, ?_, rfl⟩
    rcases (readYear_iff hys).mp hyear with hnumeral | ⟨zs, rfl, hnumeral⟩
    · exact .inl ⟨ys, ms, ds, rfl, hnumeral, hmonth, hday, hdate⟩
    · exact .inr ⟨zs, ms, ds, rfl, hnumeral, hmonth, hday, hdate⟩
  · have hread {ys ms ds : Bytes} {year month day : ℤ} (hlength : ys.length = 4)
        (hyear : fromCharsSigned (2 ^ 31 - 1) ys = some (year, [])) (hmonth : IsNumeral 2 month ms)
        (hday : IsNumeral 2 day ds) (hdate : IsDate year month day) :
        App.parseIsoDate (ys ++ minus :: (ms ++ minus :: ds)) = some (dayNumber year month day) := by
      obtain ⟨hms, hmonth, rfl⟩ := hmonth
      obtain ⟨hds, hday, rfl⟩ := hday
      rw [parseIsoDate_of_layout hlength hms hds]
      refine ⟨year, _, _, hyear, ?_, ?_, hdate, rfl⟩
      · exact (fromChars_eq_some_iff (by decide) hms (by decide)).mpr ⟨hms, hmonth, rfl⟩
      · exact (fromChars_eq_some_iff (by decide) hds (by decide)).mpr ⟨hds, hday, rfl⟩
    rintro ⟨year, month, day, ⟨ys, ms, ds, rfl, hyear, hmonth, hday, hdate⟩ |
      ⟨ys, ms, ds, rfl, hyear, hmonth, hday, hdate⟩, rfl⟩
    · exact hread hyear.length_eq ((readYear_iff hyear.length_eq).mpr (.inl hyear)) hmonth hday hdate
    · have hlength : (minus :: ys).length = 4 := congrArg (· + 1) hyear.length_eq
      exact hread hlength ((readYear_iff hlength).mpr (.inr ⟨ys, rfl, hyear⟩)) hmonth hday hdate

/-- The date that a day was read from is written as it was read. -/
theorem formatDate_dayNumber (h : IsIsoDate text year month day) :
    formatDate (dayNumber year month day) = text := by
  obtain ⟨ys, ms, ds, rfl, hyear, hmonth, hday, hdate⟩ := h
  rw [formatDate, civilFromDays_dayNumber hdate]
  dsimp only
  rw [hyear.zeroPadded_eq (by decide), hmonth.zeroPadded_eq (by decide),
    hday.zeroPadded_eq (by decide)]

theorem HasSignedYear.not_isIsoDate (h : HasSignedYear text year month day) {year' month' day' : ℤ} :
    ¬ IsIsoDate text year' month' day' := by
  obtain ⟨ys, ms, ds, rfl, -⟩ := h
  rintro ⟨ys', ms', ds', heq, hyear', -⟩
  obtain ⟨c, ys', rfl⟩ := List.exists_cons_of_length_eq_add_one hyear'.length_eq
  obtain rfl : minus = c := (List.cons.inj heq).1
  exact hyear'.not_mem (by decide) List.mem_cons_self

/-- The text is read as a day exactly when it is a date, and the day is written as the text. -/
def ReadsExactly (parse : Bytes → Option ℤ) (text : Bytes) : Prop :=
  ((parse text).isSome = true ↔ ∃ year month day, IsIsoDate text year month day) ∧
    ∀ n, parse text = some n → formatDate n = text

/-- Both copies are exact but for three digits behind a minus sign in place of the year. -/
theorem readsExactly_iff (text option : Bytes) :
    ReadsExactly (fun value => (CliApp.parseDate value option).toOption) text ∧
        ReadsExactly App.parseIsoDate text ↔
      ¬ ∃ year month day, HasSignedYear text year month day := by
  have hsame : (fun value => (CliApp.parseDate value option).toOption) = App.parseIsoDate :=
    funext fun value => (parseIsoDate_eq value option).symm
  rw [hsame, and_self, ReadsExactly]
  constructor
  · rintro ⟨haccepts, -⟩ ⟨year, month, day, hsigned⟩
    have hread := parseIsoDate_iff.mpr ⟨year, month, day, .inr hsigned, rfl⟩
    obtain ⟨year', month', day', hiso⟩ := haccepts.mp (by rw [hread]; rfl)
    exact hsigned.not_isIsoDate hiso
  · intro hnone
    have hiso {n : ℤ} (h : App.parseIsoDate text = some n) :
        ∃ year month day, IsIsoDate text year month day ∧ n = dayNumber year month day := by
      obtain ⟨year, month, day, hdate | hsigned, rfl⟩ := parseIsoDate_iff.mp h
      · exact ⟨year, month, day, hdate, rfl⟩
      · exact absurd ⟨year, month, day, hsigned⟩ hnone
    refine ⟨⟨?_, ?_⟩, ?_⟩
    · intro hsome
      obtain ⟨n, hn⟩ := Option.isSome_iff_exists.mp hsome
      obtain ⟨year, month, day, hdate, -⟩ := hiso hn
      exact ⟨year, month, day, hdate⟩
    · rintro ⟨year, month, day, hdate⟩
      rw [parseIsoDate_iff.mpr ⟨year, month, day, .inl hdate, rfl⟩]
      rfl
    · intro n hn
      obtain ⟨year, month, day, hdate, rfl⟩ := hiso hn
      exact formatDate_dayNumber hdate

/-- Whole days from midnight to the last second of the day. -/
def CoversDays (arguments : List Bytes) : Prop :=
  ∀ options start stop, CliApp.parseArguments arguments = .ok options →
    CliApp.requestedFrom arguments = some start → CliApp.requestedTo arguments = some stop →
    let generation := options.config.timestampGeneration
    start ≤ stop ∧ generation.mode = .range ∧ generation.range.start = start * 86400 ∧
      generation.range.stop = stop * 86400 + (23 * 3600 + 59 * 60 + 59) ∧
      generation.range.stop - generation.range.start + 1 = (stop - start + 1) * 86400

theorem coversDays (arguments : List Bytes) : CoversDays arguments := by
  intro options start stop hparse hfrom hto
  rcases (CliApp.acceptedTimes hparse).generation with ⟨start', stop', hfrom', hto', hle, hgen⟩ |
    ⟨hnone, -⟩
  · obtain rfl : start = start' := Option.some.inj (hfrom.symm.trans hfrom')
    obtain rfl : stop = stop' := Option.some.inj (hto.symm.trans hto')
    dsimp only
    rw [hgen]
    exact ⟨hle, rfl, rfl, by dsimp only; ring, by dsimp only; ring⟩
  · rw [hfrom] at hnone
    cases hnone

/-- Dates are read exactly but for years with a minus sign, and the days from the one date to the
other are covered second by second. -/
theorem readsDates_iff (text option : Bytes) (arguments : List Bytes) :
    (ReadsExactly (fun value => (CliApp.parseDate value option).toOption) text ∧
        ReadsExactly App.parseIsoDate text ↔
      ¬ ∃ year month day, HasSignedYear text year month day) ∧
    CoversDays arguments :=
  ⟨readsExactly_iff text option, coversDays arguments⟩

/-- A day of the year -123. -/
theorem signedYear_accepted : ¬ ∀ text option,
    ReadsExactly (fun value => (CliApp.parseDate value option).toOption) text ∧
      ReadsExactly App.parseIsoDate text := by
  intro h
  apply (readsExactly_iff (bytes "-123-01-02") []).mp (h _ _)
  refine ⟨-123, 1, 2, bytes "123", bytes "01", bytes "02", by decide, ?_, ?_, ?_, by decide⟩
  all_goals exact ⟨by decide, by decide, by decide⟩

end Dates

end Presentation
end LogGenerator
