import LogGenerator.Application.CompileSegments
import LogGenerator.Foundation.Numerals

/-!
# Tokens of recognised timestamps

What a text that a recogniser captures looks like around its zone suffix, and what
`make_token` keeps of it.
-/

namespace LogGenerator
namespace Application

open Ascii Regex Occurrences

variable {style : TimestampStyle} {value core zone : Bytes} {offset : ℤ}

/-- The recognisers of the style capture the text somewhere. -/
def Recognised (style : TimestampStyle) (value : Bytes) : Prop :=
  ∃ p ∈ timestampPatterns, p.style = style ∧ ∃ input, ∃ M ∈ p.expression.allMatches input,
    ∃ bounds, M.group? p.captureGroup = some bounds ∧ slice input bounds = value

theorem recognised_of_mem (i : ℕ) (hi : i < timestampPatterns.length) (input : Bytes)
    (h : value ∈ (timestampPatterns[i].expression.allMatches input).filterMap fun M =>
      (M.group? timestampPatterns[i].captureGroup).map (slice input)) :
    Recognised timestampPatterns[i].style value := by
  obtain ⟨M, hM, hbounds⟩ := List.mem_filterMap.mp h
  obtain ⟨bounds, hgroup, rfl⟩ := Option.map_eq_some_iff.mp hbounds
  exact ⟨_, List.getElem_mem hi, rfl, input, M, hM, bounds, hgroup, rfl⟩

/-- The expressions that the capture groups of a style match. -/
def stampsOf (style : TimestampStyle) : List Regex :=
  (timestampPatterns.filter fun p => p.style == style).flatMap TimestampPattern.stamps

theorem Recognised.exists_matches (h : Recognised style value) :
    ∃ a ∈ stampsOf style, ∃ before after, a.Matches before value after := by
  obtain ⟨p, hp, rfl, input, M, hM, bounds, hgroup, rfl⟩ := h
  obtain ⟨a, ha, x, t, z, rfl, ht, rfl⟩ :=
    exists_of_group (consumes_timestampPatterns p hp) hM hgroup
  refine ⟨a, ?_, x, z, ?_⟩
  · exact List.mem_flatMap.mpr ⟨p, List.mem_filter.mpr ⟨hp, beq_self_eq_true _⟩, ha⟩
  · rwa [slice_eq x t z rfl rfl List.length_append.symm]

/-- A zone as a timestamp shows it, and its minutes east of Greenwich. -/
inductive ZoneText : Bytes → ℤ → Prop
  | utc {name : Bytes} (hname : name ∈ ["Z", "UTC", "GMT"].map bytes) : ZoneText name 0
  | east {hours minutes colon : Bytes} {h m : ℤ} (hhours : IsNumeral 2 h hours)
      (hminutes : IsNumeral 2 m minutes) (hcolon : colon = [] ∨ colon = bytes ":") :
      ZoneText (bytes "+" ++ hours ++ colon ++ minutes) (60 * h + m)
  | west {hours minutes colon : Bytes} {h m : ℤ} (hhours : IsNumeral 2 h hours)
      (hminutes : IsNumeral 2 m minutes) (hcolon : colon = [] ∨ colon = bytes ":") :
      ZoneText (bytes "-" ++ hours ++ colon ++ minutes) (-(60 * h + m))

theorem charValue_of_isDigit {b : UInt8} (h : isDigit b = true) : charValue b = b.toNat := by
  have hb := digit_le h
  rw [charValue, if_pos (UInt8.lt_iff_toNat_lt.mpr (show b.toNat < 128 by omega))]

/-- The offset that is read from a zone is the one it shows. -/
theorem ZoneText.parseZoneOffset_eq (h : ZoneText zone offset) : parseZoneOffset zone = offset := by
  have hplus : bytes "+" = [43] := rfl
  have hminus : bytes "-" = [45] := rfl
  have hcolons : bytes ":" = [58] := rfl
  cases h with
  | utc hname =>
    fin_cases hname
    all_goals rfl
  | east hhours hminutes hcolon | west hhours hminutes hcolon =>
    obtain ⟨b, c, rfl, ⟨hb, hc⟩, rfl⟩ := hhours.eq_pair
    obtain ⟨d, e, rfl, ⟨hd, he⟩, rfl⟩ := hminutes.eq_pair
    have hvalue := charValue_of_isDigit hb
    have hvalue₂ := charValue_of_isDigit hc
    have hvalue₃ := charValue_of_isDigit hd
    have hvalue₄ := charValue_of_isDigit he
    -- the minutes begin at the fourth byte, or behind the colon
    rcases hcolon with rfl | rfl
    all_goals
      simp [parseZoneOffset, hplus, hminus, hcolons, hvalue, hvalue₂, hvalue₃, hvalue₄]
      omega

/-- The bytes that begin a zone other than the names. -/
def signs : Bytes := bytes "Z+-"

/-- A zone that begins with its only sign. -/
def Signed (zone : Bytes) : Prop :=
  ∃ b rest, zone = b :: rest ∧ signs.contains b = true ∧ rest.length ≤ 5 ∧
    ∀ c ∈ rest, signs.contains c = false

theorem not_mem_signs : ∀ b : UInt8, isDigit b = true → signs.contains b = false := by
  decide

theorem signed_of_digits {b : UInt8} {hours minutes colon : Bytes} {h m : ℤ}
    (hb : signs.contains b = true) (hhours : IsNumeral 2 h hours) (hminutes : IsNumeral 2 m minutes)
    (hcolon : colon = [] ∨ colon = bytes ":") : Signed ([b] ++ hours ++ colon ++ minutes) := by
  refine ⟨b, hours ++ colon ++ minutes, by simp, hb, ?_, ?_⟩
  · have hlength : colon.length ≤ 1 := by
      rcases hcolon with rfl | rfl
      · exact Nat.zero_le 1
      · exact le_rfl
    rw [List.length_append, List.length_append, hhours.length_eq, hminutes.length_eq]
    omega
  · intro c hc
    rcases List.mem_append.mp hc with hc | hc
    · rcases List.mem_append.mp hc with hc | hc
      · exact not_mem_signs c (hhours.digits c hc)
      · rcases hcolon with rfl | rfl
        · cases hc
        · rw [List.mem_singleton.mp hc]
          decide
    · exact not_mem_signs c (hminutes.digits c hc)

/-- A zone is a sign with what follows it, or one of two names. -/
theorem ZoneText.cases_signed (h : ZoneText zone offset) :
    Signed zone ∨ offset = 0 ∧ (zone = bytes "UTC" ∨ zone = bytes "GMT") := by
  cases h with
  | utc hname =>
    fin_cases hname
    · exact .inl ⟨90, [], rfl, by decide, Nat.zero_le 5, nofun⟩
    · exact .inr ⟨rfl, .inl rfl⟩
    · exact .inr ⟨rfl, .inr rfl⟩
  | east hhours hminutes hcolon => exact .inl (signed_of_digits (by decide) hhours hminutes hcolon)
  | west hhours hminutes hcolon => exact .inl (signed_of_digits (by decide) hhours hminutes hcolon)

theorem ZoneText.ne_nil (h : ZoneText zone offset) : zone ≠ [] := by
  rcases h.cases_signed with ⟨_, _, rfl, -⟩ | ⟨-, rfl | rfl⟩
  all_goals exact nofun

/-- The last sign of a text begins its zone. -/
theorem Signed.eq_of_append {front mid z : Bytes} (hz : z = [] ∨ Signed z) (hzone : Signed zone)
    (hmid : ∀ b ∈ mid, signs.contains b = false) (hlong : 6 ≤ mid.length)
    (h : front ++ (mid ++ z) = core ++ zone) : z = zone := by
  obtain ⟨b, rest, rfl, hb, hrest, hnone⟩ := hzone
  have hlengths := congrArg List.length h
  simp only [List.length_append, List.length_cons] at hlengths
  obtain ⟨between, rfl⟩ : ∃ between, core = front ++ between := by
    rcases List.append_eq_append_iff.mp h with ⟨between, rfl, -⟩ | ⟨between, rfl, -⟩
    · exact ⟨between, rfl⟩
    · simp only [List.length_append] at hlengths
      obtain rfl : between = [] := List.length_eq_zero_iff.mp (by omega)
      exact ⟨[], by simp⟩
  rw [List.append_assoc, List.append_cancel_left_eq] at h
  rcases List.append_eq_append_iff.mp h with ⟨part, rfl, hpart⟩ | ⟨part, rfl, hpart⟩
  · -- the zone begins inside what the recogniser takes for one
    rcases hz with rfl | ⟨c, rest', rfl, -, -, hnone'⟩
    · cases part
      all_goals cases hpart
    · cases part with
      | nil => exact hpart
      | cons d part =>
        obtain ⟨rfl, rfl⟩ := List.cons.inj hpart
        rw [hnone' b (by simp)] at hb
        cases hb
  · -- the zone begins before it
    cases part with
    | nil => exact hpart.symm
    | cons d part =>
      obtain ⟨rfl, -⟩ := List.cons.inj hpart
      rw [hmid b (by simp)] at hb
      cases hb

theorem signed_of_zone {before after : Bytes}
    (h : TimestampPattern.zone.Matches before value after) : value = [] ∨ Signed value := by
  rw [TimestampPattern.zone, matches_opt, matches_alt, matches_lit] at h
  rcases h with rfl | rfl | ⟨_, _, rfl, ⟨b, rfl, hb⟩, hrest⟩
  · exact .inl rfl
  · exact .inr ⟨90, [], rfl, by decide, Nat.zero_le 5, nofun⟩
  · refine .inr ⟨b, _, rfl, ?_, ?_, ?_⟩
    · have hsigns : ∀ b : UInt8, (bytes "+-").contains b = true → signs.contains b = true := by
        decide
      exact hsigns b hb
    · obtain ⟨hours, _, rfl, hhours, colon, _, rfl, hcolon, minutes, _, rfl, hminutes, rfl⟩ := hrest
      have hcolon' : colon.length ≤ 1 := by
        rw [matches_opt, matches_lit] at hcolon
        rcases hcolon with rfl | rfl
        · exact Nat.zero_le 1
        · exact le_rfl
      have hhours' := (matches_times_set.mp hhours).1
      have hminutes' := (matches_times_set.mp hminutes).1
      show (hours ++ (colon ++ (minutes ++ []))).length ≤ 5
      rw [List.append_nil, List.length_append, List.length_append, hhours', hminutes']
      omega
    · have hbytes : ∀ c : UInt8, (seqs [times numeral 2, opt (lit ":"), times numeral 2]).uses c =
          true → signs.contains c = false := by
        decide
      exact fun c hc => hbytes c (uses_of_matches hrest c hc)

theorem Recognised.not_mem (h : Recognised style value) {b : UInt8}
    (hb : ∀ a ∈ stampsOf style, a.uses b = false) : b ∉ value := by
  obtain ⟨a, ha, before, after, hmatch⟩ := h.exists_matches
  intro hmem
  have huses := uses_of_matches hmatch b hmem
  rw [hb a ha] at huses
  cases huses

theorem signed_of_recognised (h : Recognised style value) (hvalue : value = core ++ zone)
    (hzone : ZoneText zone offset)
    (hnames : ∀ a ∈ stampsOf style, a.uses 71 = false ∧ a.uses 85 = false) : Signed zone := by
  have hG := h.not_mem fun a ha => (hnames a ha).1
  have hU := h.not_mem fun a ha => (hnames a ha).2
  rw [hvalue, List.mem_append, not_or] at hG hU
  rcases hzone.cases_signed with hsigned | ⟨-, rfl | rfl⟩
  · exact hsigned
  · exact absurd hU.2 (by decide)
  · exact absurd hG.2 (by decide)

/-- The token keeps the zone that begins at the first sign from a place on. -/
theorem TimestampToken.withZone_sign (token : TimestampToken) {front mid : Bytes}
    (hmid : ∀ b ∈ mid, signs.contains b = false) (hsigned : Signed zone)
    (hzone : ZoneText zone offset) :
    let value := front ++ (mid ++ zone)
    token.withZone value (findFirstOf value signs front.length) =
      { token with zoneSuffix := zone, zoneOffsetMinutes := offset } := by
  intro value
  have hdrop : value.drop (front ++ mid).length = zone := by
    rw [show value = (front ++ mid) ++ zone from (List.append_assoc ..).symm, List.drop_left]
  have hfind : findFirstOf value signs front.length = some (front ++ mid).length := by
    obtain ⟨b, rest, rfl, hb, -, -⟩ := hsigned
    exact findFirstOf_append hmid hb front rest
  rw [hfind, TimestampToken.withZone, hdrop, hzone.parseZoneOffset_eq]

open TimestampPattern in
theorem stampsOf_iso8601 : stampsOf .iso8601 =
    [seqs ([.boundary, separatedDate, oneOf "T "] ++
      ([hour, lit ":", sixty, lit ":", sixty, fraction] ++
        [TimestampPattern.zone]))] := rfl

open TimestampPattern in
/-- A date of ten bytes, a byte between, a time of day, and perhaps a zone. -/
theorem Recognised.iso8601 (h : Recognised .iso8601 value) :
    ∃ year separator rest between time z, value = year ++ separator :: rest ++ between :: (time ++ z) ∧
      year.length = 4 ∧ rest.length = 5 ∧ separator ∈ bytes "-/" ∧ between ∈ bytes "T " ∧
      6 ≤ time.length ∧ (∀ b ∈ time, signs.contains b = false) ∧ (z = [] ∨ Signed z) := by
  obtain ⟨a, ha, before, after, hmatch⟩ := h.exists_matches
  rw [stampsOf_iso8601, List.mem_singleton] at ha
  subst ha
  obtain ⟨_, _, rfl, hfront, hbehind⟩ := matches_seqs_append.mp hmatch
  obtain ⟨time, _, rfl, htime, z, _, rfl, hz, rfl⟩ := matches_seqs_append.mp hbehind
  obtain ⟨_, _, rfl, ⟨rfl, -⟩, date, _, rfl, hdate, _, _, rfl, ⟨between, rfl, hbetween⟩, rfl⟩ := hfront
  obtain ⟨year, _, rfl, hyear, _, rest, rfl, ⟨separator, rfl, hseparator⟩, hrest⟩ := hdate
  rw [List.append_nil] at hz
  have htimeBytes : ∀ c : UInt8, (seqs [hour, lit ":", sixty, lit ":", sixty, fraction]).uses c =
      true → signs.contains c = false := by
    decide
  refine ⟨year, separator, rest, between, time, z, by simp, length_of_width rfl hyear,
    length_of_width rfl hrest, ?_, ?_, ?_, fun b hb => htimeBytes b (uses_of_matches htime b hb),
    signed_of_zone hz⟩
  · exact List.contains_iff_mem.mp hseparator
  · exact List.contains_iff_mem.mp hbetween
  · exact (show 6 ≤ (seqs [hour, lit ":", sixty, lit ":", sixty, fraction]).shortest by decide).trans
      (shortest_le htime)

@[simp] theorem withFraction_dateSeparator (token : TimestampToken) (value : Bytes)
    (dot : Option ℕ) : (token.withFraction value dot).dateSeparator = token.dateSeparator := by
  cases dot <;> rfl

@[simp] theorem withFraction_dateTimeSeparator (token : TimestampToken) (value : Bytes)
    (dot : Option ℕ) :
    (token.withFraction value dot).dateTimeSeparator = token.dateTimeSeparator := by
  cases dot <;> rfl

theorem makeToken_iso8601 (h : Recognised .iso8601 value) (hvalue : value = core ++ zone)
    (hzone : ZoneText zone offset) :
    let token := makeToken .iso8601 value
    (token.zoneSuffix = zone ∧ token.zoneOffsetMinutes = offset) ∧
      token.dateSeparator ∈ bytes "-/" ∧ token.dateTimeSeparator ∈ bytes "T " := by
  have hsigned := signed_of_recognised h hvalue hzone (by decide)
  obtain ⟨year, separator, rest, between, time, z, hshape, hyear, hrest, hseparator, hbetween,
    hlong, htime, hz⟩ := h.iso8601
  have hfront : (year ++ separator :: rest ++ [between]).length = 11 := by
    simp [hyear, hrest]
  have hshape' : value = year ++ separator :: rest ++ [between] ++ (time ++ z) := by
    rw [hshape]
    simp
  obtain rfl := Signed.eq_of_append hz hsigned htime hlong (hshape'.symm.trans hvalue)
  have hdate : value.getD 4 45 = separator := by
    rw [hshape, List.append_assoc, List.getD_eq_getElem?_getD, List.getElem?_append_right hyear.le,
      hyear]
    rfl
  have hdateTime : value.getD 10 84 = between := by
    have hlength : (year ++ separator :: rest).length = 10 := by simp [hyear, hrest]
    rw [hshape, List.getD_eq_getElem?_getD, List.getElem?_append_right hlength.le, hlength]
    rfl
  have hkept (token : TimestampToken) :
      token.withZone value (findFirstOf value (bytes "Z+-") 11) =
        { token with zoneSuffix := z, zoneOffsetMinutes := offset } := by
    rw [hshape', ← hfront]
    exact token.withZone_sign htime hsigned hzone
  simp only [makeToken, hkept, withFraction_dateSeparator, withFraction_dateTimeSeparator, hdate,
    hdateTime]
  exact ⟨⟨trivial, trivial⟩, hseparator, hbetween⟩

theorem stampsOf_compactWithT : stampsOf .compactWithT =
    [seqs ([TimestampPattern.year, TimestampPattern.month, TimestampPattern.day, lit "T"] ++
      ([times numeral 6] ++ ([TimestampPattern.fraction] ++ [TimestampPattern.zone])))] := rfl

/-- A date and a `T`, six digits, perhaps a fraction, and perhaps a zone. -/
theorem Recognised.compactWithT (h : Recognised .compactWithT value) :
    ∃ date time fraction z, value = date ++ (time ++ (fraction ++ z)) ∧ date.length = 9 ∧
      time.length = 6 ∧ (∀ b ∈ time, isDigit b = true) ∧
      (∀ b ∈ fraction, signs.contains b = false) ∧ (z = [] ∨ Signed z) := by
  obtain ⟨a, ha, before, after, hmatch⟩ := h.exists_matches
  rw [stampsOf_compactWithT, List.mem_singleton] at ha
  subst ha
  obtain ⟨date, _, rfl, hdate, hbehind⟩ := matches_seqs_append.mp hmatch
  obtain ⟨_, _, rfl, ⟨time, _, rfl, htime, rfl⟩, hbehind⟩ := matches_seqs_append.mp hbehind
  obtain ⟨fraction, _, rfl, hfraction, z, _, rfl, hz, rfl⟩ := matches_seqs_append.mp hbehind
  rw [List.append_nil] at hz
  obtain ⟨hlength, hdigits⟩ := matches_times_set.mp htime
  have hbytes : ∀ c : UInt8, (seqs [TimestampPattern.fraction]).uses c = true →
      signs.contains c = false := by
    decide
  exact ⟨date, time, fraction, z, by simp, length_of_width rfl hdate, hlength, hdigits,
    fun b hb => hbytes b (uses_of_matches hfraction b hb), signed_of_zone hz⟩

theorem makeToken_compactWithT (h : Recognised .compactWithT value) (hvalue : value = core ++ zone)
    (hzone : ZoneText zone offset) :
    let token := makeToken .compactWithT value
    token.zoneSuffix = zone ∧ token.zoneOffsetMinutes = offset := by
  have hsigned := signed_of_recognised h hvalue hzone (by decide)
  obtain ⟨date, time, fraction, z, hshape, hdate, htime, hdigits, hfraction, hz⟩ := h.compactWithT
  have htime' : ∀ b ∈ time, signs.contains b = false := fun b hb => not_mem_signs b (hdigits b hb)
  have hfront : (date ++ time).length = 15 := by
    rw [List.length_append, hdate, htime]
  have hsplit : date ++ (time ++ fraction ++ z) = core ++ zone := by
    rw [← hvalue, hshape, List.append_assoc]
  obtain rfl : z = zone := by
    apply Signed.eq_of_append hz hsigned _ _ hsplit
    · exact List.forall_mem_append.mpr ⟨htime', hfraction⟩
    · rw [List.length_append, htime]
      exact Nat.le_add_right 6 _
  have hkept (token : TimestampToken) :
      token.withZone value (findFirstOf value (bytes "Z+-") 15) =
        { token with zoneSuffix := z, zoneOffsetMinutes := offset } := by
    rw [hshape, ← List.append_assoc date, ← hfront]
    exact token.withZone_sign hfraction hsigned hzone
  simp only [makeToken, hkept]
  exact ⟨trivial, trivial⟩

theorem stampsOf_apache : stampsOf .apache =
    [seqs ([.boundary, between numeral 1 2, lit "/", TimestampPattern.nameOfThree, lit "/",
      times numeral 4] ++ ([lit ":", TimestampPattern.clock, plus whitespace] ++
        [oneOf "+-", times numeral 4, .boundary]))] := rfl

/-- A date, a time of day with white space behind it, and a sign with four digits. -/
theorem Recognised.apache (h : Recognised .apache value) :
    ∃ date time b digits, value = date ++ (time ++ b :: digits) ∧ 6 ≤ time.length ∧
      (∀ c ∈ time, signs.contains c = false) ∧ (bytes "+-").contains b = true ∧
      digits.length = 4 ∧ (∀ c ∈ digits, isDigit c = true) := by
  obtain ⟨a, ha, before, after, hmatch⟩ := h.exists_matches
  rw [stampsOf_apache, List.mem_singleton] at ha
  subst ha
  obtain ⟨date, _, rfl, -, hbehind⟩ := matches_seqs_append.mp hmatch
  obtain ⟨time, _, rfl, htime, _, _, rfl, ⟨b, rfl, hb⟩, digits, _, rfl, hdigits, _, _, rfl,
    ⟨rfl, -⟩, rfl⟩ := matches_seqs_append.mp hbehind
  obtain ⟨hlength, hall⟩ := matches_times_set.mp hdigits
  have hbytes : ∀ c : UInt8, (seqs [lit ":", TimestampPattern.clock, plus whitespace]).uses c =
      true → signs.contains c = false := by
    decide
  refine ⟨date, time, b, digits, by simp, ?_, fun c hc => hbytes c (uses_of_matches htime c hc), hb,
    hlength, hall⟩
  exact (show 6 ≤ (seqs [lit ":", TimestampPattern.clock, plus whitespace]).shortest by
    decide).trans (shortest_le htime)

theorem makeToken_apache (h : Recognised .apache value) (hvalue : value = core ++ zone)
    (hzone : ZoneText zone offset) :
    let token := makeToken .apache value
    (token.zoneSuffix = zone ∧ token.zoneOffsetMinutes = offset) ∧
      ∃ b digits, zone = b :: digits ∧ (bytes "+-").contains b = true ∧ digits.length = 4 ∧
        ∀ c ∈ digits, isDigit c = true := by
  obtain ⟨date, time, b, digits, hshape, hlong, htime, hb, hlength, hdigits⟩ := h.apache
  have hlast : value.getLast?.any isDigit = true := by
    obtain ⟨c, hc⟩ := Option.isSome_iff_exists.mp (List.getLast?_isSome.mpr
      (show digits ≠ [] from List.ne_nil_of_length_eq_add_one hlength))
    rw [hshape, ← List.append_assoc, List.append_cons, List.getLast?_append, hc]
    exact hdigits c (List.mem_of_getLast? hc)
  have hsigned : Signed zone := by
    rw [hvalue, List.getLast?_append_of_ne_nil core hzone.ne_nil] at hlast
    rcases hzone.cases_signed with hsigned | ⟨-, rfl | rfl⟩
    · exact hsigned
    · exact absurd hlast (by decide)
    · exact absurd hlast (by decide)
  have hb' : signs.contains b = true := by
    have hsigns : ∀ b : UInt8, (bytes "+-").contains b = true → signs.contains b = true := by
      decide
    exact hsigns b hb
  have hz : Signed (b :: digits) :=
    ⟨b, digits, rfl, hb', by omega, fun c hc => not_mem_signs c (hdigits c hc)⟩
  obtain rfl := Signed.eq_of_append (.inr hz) hsigned htime hlong (hshape.symm.trans hvalue)
  have hnone : ∀ c ∈ digits, (bytes "+-").contains c = false := by
    have hsigns : ∀ c : UInt8, isDigit c = true → (bytes "+-").contains c = false := by
      decide
    exact fun c hc => hsigns c (hdigits c hc)
  have hfind : findLastOf value (bytes "+-") = some (date ++ time).length := by
    rw [hshape, ← List.append_assoc]
    exact findLastOf_append hb hnone _
  have hdrop : value.drop (date ++ time).length = b :: digits := by
    rw [hshape, ← List.append_assoc, List.drop_left]
  refine ⟨?_, b, digits, rfl, hb, hlength, hdigits⟩
  simp only [makeToken, hfind, TimestampToken.withZone, hdrop, hzone.parseZoneOffset_eq]
  exact ⟨trivial, trivial⟩

theorem stampsOf_monthDayYear : stampsOf .monthDayYear =
    [seqs ([.boundary, TimestampPattern.monthDay, plus whitespace, times numeral 4,
      plus whitespace] ++ ([TimestampPattern.clock] ++
        [opt (.seq (plus whitespace) (.alt (lit "GMT") (lit "UTC"))), .boundary]))] := rfl

theorem clock_eq : TimestampPattern.clock =
    seqs ([times numeral 2, lit ":", times numeral 2, lit ":"] ++ [times numeral 2]) := rfl

/-- A date and a time of day, and perhaps white space and a name behind them. -/
theorem Recognised.monthDayYear (h : Recognised .monthDayYear value) :
    ∃ front digits z, value = front ++ digits ++ z ∧ digits.length = 2 ∧
      (∀ b ∈ digits, isDigit b = true) ∧ (z = [] ∨ ∃ between name, z = between ++ name ∧
        between ≠ [] ∧ (name = bytes "GMT" ∨ name = bytes "UTC")) := by
  obtain ⟨a, ha, before, after, hmatch⟩ := h.exists_matches
  rw [stampsOf_monthDayYear, List.mem_singleton] at ha
  subst ha
  obtain ⟨front, _, rfl, -, hbehind⟩ := matches_seqs_append.mp hmatch
  obtain ⟨_, _, rfl, ⟨clock, _, rfl, hclock, rfl⟩, z, _, rfl, hz, _, _, rfl, ⟨rfl, -⟩, rfl⟩ :=
    matches_seqs_append.mp hbehind
  rw [clock_eq] at hclock
  obtain ⟨hours, _, rfl, -, digits, _, rfl, hdigits, rfl⟩ := matches_seqs_append.mp hclock
  obtain ⟨hlength, hall⟩ := matches_times_set.mp hdigits
  refine ⟨front ++ hours, digits, z, by simp, hlength, hall, ?_⟩
  rw [matches_opt] at hz
  rcases hz with rfl | ⟨between, name, rfl, hbetween, hname⟩
  · exact .inl rfl
  · rw [matches_alt, matches_lit, matches_lit] at hname
    exact .inr ⟨between, name, rfl, (matches_plus_set.mp hbetween).1, hname⟩

/-- Its zones are the names, behind white space. -/
theorem Recognised.monthDayYear_zone (h : Recognised .monthDayYear value)
    (hvalue : value = core ++ zone) (hzone : ZoneText zone offset) :
    offset = 0 ∧ (zone = bytes "GMT" ∨ zone = bytes "UTC") := by
  have hplus : (43 : UInt8) ∉ value := h.not_mem (by decide)
  have hminus : (45 : UInt8) ∉ value := h.not_mem (by decide)
  cases hzone with
  | utc hname =>
    fin_cases hname
    · -- a recognised text does not end with this letter
      have hlast : value.getLast? = some 90 := by
        rw [hvalue, List.getLast?_append_of_ne_nil core (by decide)]
        rfl
      obtain ⟨front, digits, z, rfl, hlength, hdigits, rfl | ⟨between, name, rfl, -, hname⟩⟩ :=
        h.monthDayYear
      · have hne : digits ≠ [] := List.ne_nil_of_length_eq_add_one hlength
        rw [List.append_nil, List.getLast?_append_of_ne_nil front hne] at hlast
        exact absurd (hdigits 90 (List.mem_of_getLast? hlast)) (by decide)
      · rw [← List.append_assoc] at hlast
        rcases hname with rfl | rfl
        · rw [List.getLast?_append_of_ne_nil _ (by decide)] at hlast
          exact absurd hlast (by decide)
        · rw [List.getLast?_append_of_ne_nil _ (by decide)] at hlast
          exact absurd hlast (by decide)
    · exact ⟨rfl, .inr rfl⟩
    · exact ⟨rfl, .inl rfl⟩
  | east hhours hminutes hcolon =>
    have hsign : (43 : UInt8) ∈ bytes "+" := by decide
    exact absurd (by simp [hvalue, hsign]) hplus
  | west hhours hminutes hcolon =>
    have hsign : (45 : UInt8) ∈ bytes "-" := by decide
    exact absurd (by simp [hvalue, hsign]) hminus

/-- The token keeps the name when a space is before it, and no zone otherwise. -/
theorem makeToken_monthDayYear (h : Recognised .monthDayYear value) (hvalue : value = core ++ zone)
    (hzone : ZoneText zone offset) :
    (makeToken .monthDayYear value).zoneSuffix =
      if core.getLast? = some space then zone else [] := by
  obtain ⟨-, hname⟩ := h.monthDayYear_zone hvalue hzone
  have hlength : zone.length = 3 := by
    rcases hname with rfl | rfl
    · rfl
    · rfl
  have hnone : ∀ c ∈ zone, [space].contains c = false := by
    rcases hname with rfl | rfl
    · decide
    · decide
  simp only [makeToken]
  split_ifs with hspace
  · obtain ⟨front, rfl⟩ := List.getLast?_eq_some_iff.mp hspace
    have hsplit : value = front ++ space :: zone := by
      rw [hvalue, List.append_assoc, List.singleton_append]
    have hfind : findLastOf value [space] = some front.length := by
      rw [hsplit]
      exact findLastOf_append (by decide) hnone front
    have hdrop : value.drop (front.length + 1) = zone := by
      rw [hsplit, List.append_cons, ← List.length_singleton (a := space), ← List.length_append,
        List.drop_left]
    simp only [hfind, hdrop, hname, ↓reduceIte]
  · split
    · rfl
    · next position hfind =>
      obtain ⟨front, b, behind, hsplit, rfl, hb⟩ := exists_of_findLastOf hfind
      have hdrop : value.drop (front.length + 1) = behind := by
        rw [hsplit, List.append_cons, ← List.length_singleton (a := b), ← List.length_append,
          List.drop_left]
      rw [hdrop]
      split_ifs with hbehind
      · -- a name behind the last space is the zone, with the space before it
        have hlength' : behind.length = zone.length := by
          rcases hbehind with rfl | rfl
          · exact hlength.symm
          · exact hlength.symm
        rw [hvalue, List.append_cons] at hsplit
        obtain ⟨rfl, -⟩ := List.append_inj' hsplit hlength'.symm
        obtain rfl := List.mem_singleton.mp (List.contains_iff_mem.mp hb)
        exact absurd List.getLast?_concat hspace
      · rfl

end Application
end LogGenerator
