import LogGenerator.Application.RecognisedTimestamps
import LogGenerator.Application.TimestampFormat
import LogGenerator.Foundation.Gregorian
import LogGenerator.Foundation.Overflow

/-!
# The instant that a rendered timestamp denotes

What `append_timestamp` writes for a timestamp with a zone, read as a date of the
proleptic Gregorian calendar, a time of day and an offset.
-/

namespace LogGenerator
namespace Application

open Ascii Gregorian

theorem civilFromDays_spec (days : ℤ) :
    let date := civilFromDays days
    IsDate date.1 date.2.1 date.2.2 ∧ dayNumber date.1 date.2.1 date.2.2 = days := by
  have hday : 0 ≤ (days + 719468) % 146097 ∧ (days + 719468) % 146097 < 146097 :=
    ⟨Int.emod_nonneg _ (by decide), Int.emod_lt_of_pos _ (by decide)⟩
  obtain ⟨century, cycle, year, day, h⟩ := exists_eraDay hday
  have hdate : civilFromDays days = fromMarch (100 * century + 4 * cycle + year +
      (days + 719468) / 146097 * 400) day := by
    unfold civilFromDays fromMarch
    simp only [h.year_eq, h.day_eq rfl]
    rfl
  simp only [hdate]
  exact h.fromMarch_spec (Int.mul_ediv_add_emod _ _).symm

theorem civilFromDays_dayNumber {year month day : ℤ} (h : IsDate year month day) :
    civilFromDays (dayNumber year month day) = (year, month, day) := by
  obtain ⟨hdate, hnumber⟩ := civilFromDays_spec (dayNumber year month day)
  obtain ⟨hyear, hmonth, hday⟩ := hdate.unique h hnumber
  exact Prod.ext hyear (Prod.ext hmonth hday)

/-- `std::tm` of a date with a time of day. -/
def tmOf (c : CivilTime) : Tm :=
  { year := c.year - 1900
    mon := c.month - 1
    mday := c.day
    hour := c.hour
    min := c.minute
    sec := c.second
    wday := c.weekday }

theorem convertUtcTime_eq (point : ℤ) : ∃ c : CivilTime,
    c.seconds = point / nanosecondsPerSecond ∧ convertUtcTime point = tmOf c := by
  obtain ⟨seconds, hseconds⟩ : ∃ seconds, seconds = point / nanosecondsPerSecond := ⟨_, rfl⟩
  obtain ⟨hdate, hnumber⟩ := civilFromDays_spec (seconds / 86400)
  have htime : 0 ≤ seconds % 86400 ∧ seconds % 86400 < 86400 := by omega
  refine ⟨⟨_, _, _, seconds % 86400 / 3600, seconds % 86400 % 3600 / 60, seconds % 86400 % 60, hdate,
    by omega, by omega, by omega⟩, ?_, ?_⟩
  · rw [← hseconds]
    simp only [CivilTime.seconds, CivilTime.days, hnumber]
    omega
  · rw [convertUtcTime, ← hseconds]
    simp only [tmOf, CivilTime.weekday, CivilTime.days, hnumber]

/-- Numerals and the month name for a date with a time of day. -/
structure Figures (c : CivilTime) where
  year : Bytes
  month : Bytes
  day : Bytes
  hour : Bytes
  minute : Bytes
  second : Bytes
  name : Bytes
  year_eq : IsNumeral 4 c.year year
  month_eq : IsNumeral 2 c.month month
  day_eq : IsNumeral 2 c.day day
  hour_eq : IsNumeral hour.length c.hour hour
  hour_length : hour.length = 1 ∨ hour.length = 2
  minute_eq : IsNumeral 2 c.minute minute
  second_eq : IsNumeral 2 c.second second
  name_eq : months[(c.month - 1).toNat]? = some name

def Figures.clock {c : CivilTime} (f : Figures c) : Bytes :=
  f.hour ++ bytes ":" ++ f.minute ++ bytes ":" ++ f.second

/-- The text is the date and the time of day in the order and with the signs of the style. -/
def Shows (style : TimestampStyle) (c : CivilTime) (text : Bytes) : Prop :=
  ∃ f : Figures c,
    match style with
    | .iso8601 => ∃ separator ∈ bytes "-/", ∃ between ∈ bytes "T ",
        text = f.year ++ [separator] ++ f.month ++ [separator] ++ f.day ++ [between] ++ f.clock
    | .compactWithT => f.hour.length = 2 ∧
        text = f.year ++ f.month ++ f.day ++ bytes "T" ++ f.hour ++ f.minute ++ f.second
    | .apache => f.hour.length = 2 ∧
        text = f.day ++ bytes "/" ++ f.name ++ bytes "/" ++ f.year ++ bytes ":" ++ f.clock
    | .monthDayYear => f.hour.length = 2 ∧
        text = f.name ++ bytes " " ++ f.day ++ bytes " " ++ f.year ++ bytes " " ++ f.clock
    | _ => False

/-- A dot and the leading digits of the nanoseconds behind the second. -/
def ShowsFraction (digits : ℕ) (point : ℤ) (text : Bytes) : Prop :=
  if digits = 0 then text = []
  else ∃ ds, text = bytes "." ++ ds ∧
    IsNumeral digits (point % nanosecondsPerSecond / 10 ^ (9 - digits)) ds

/-- The name of the day of the week, when the token asks for it. -/
def ShowsWeekday (token : TimestampToken) (c : CivilTime) (text : Bytes) : Prop :=
  if token.hasWeekday then ∃ name, weekdays[c.weekday.toNat]? = some name ∧ text = name ++ bytes " "
  else text = []

/-- What stands between the time of day and the zone. -/
def zoneSeparator : TimestampStyle → Bytes
  | .apache | .monthDayYear => bytes " "
  | _ => []

/-- The output reads as the time point, for a zone of so many minutes east of Greenwich. -/
def ShowsInstant (token : TimestampToken) (zone : Bytes) (offset point : ℤ) (output : Bytes) :
    Prop :=
  ∃ (c : CivilTime) (weekday text fraction : Bytes),
    output = weekday ++ text ++ fraction ++ zoneSeparator token.style ++ zone ∧
    ShowsWeekday token c weekday ∧ Shows token.style c text ∧
    ShowsFraction token.fractionalDigits point fraction ∧
    c.seconds - offset * 60 = point / nanosecondsPerSecond

/-- The token is rendered as the time point in its zone, and in calendar time as the time
point itself, whatever the local time. -/
def RendersInstant (token : TimestampToken) (zone : Bytes) (offset : ℤ) : Prop :=
  ∀ (localTime : ℤ → Tm) (point : ℤ), Fits point →
    (Fits (point + offset * 60 * nanosecondsPerSecond) →
      ShowsInstant token zone offset point (timestampText localTime token point false)) ∧
    ShowsInstant token zone 0 point (timestampText localTime token point true)

theorem isNumeral_hourText (token : TimestampToken) (c : CivilTime) :
    ∃ width, (width = 1 ∨ width = 2) ∧ IsNumeral width c.hour (hourText token (tmOf c)) := by
  have hhour := c.hour_mem
  obtain ⟨hour, hnat⟩ := Int.eq_ofNat_of_zero_le hhour.1
  have hpos : 0 < (decimal hour).length := List.length_pos_iff.mpr (decimal_ne_nil hour)
  have hle : (decimal hour).length ≤ 2 := length_decimal_le (by decide) (by norm_num; omega)
  simp only [hourText, tmOf]
  split_ifs
  · refine ⟨_, ?_, hnat ▸ isNumeral_zeroPadded_max 1 hour⟩
    omega
  · exact ⟨2, .inr rfl, isNumeral_zeroPadded (by decide) (by norm_num; omega)⟩

/-- The figures that `snprintf` writes, for an hour of either width. -/
def figuresOf (c : CivilTime) (hyear : 1677 ≤ c.year ∧ c.year ≤ 2262) (hour : Bytes)
    (hhour : ∃ width, (width = 1 ∨ width = 2) ∧ IsNumeral width c.hour hour) : Figures c where
  year := yearText (tmOf c)
  month := zeroPadded 2 ((tmOf c).mon + 1)
  day := zeroPadded 2 (tmOf c).mday
  hour := hour
  minute := zeroPadded 2 (tmOf c).min
  second := zeroPadded 2 (tmOf c).sec
  name := monthName (tmOf c)
  year_eq := by
    rw [yearText, show (tmOf c).year + 1900 = c.year from sub_add_cancel c.year 1900]
    exact isNumeral_zeroPadded (by decide) (by norm_num; omega)
  month_eq := by
    have hmonth := c.date.month_mem
    rw [show (tmOf c).mon + 1 = c.month from sub_add_cancel c.month 1]
    exact isNumeral_zeroPadded (by decide) (by norm_num; omega)
  day_eq := by
    have hday := c.day_mem
    exact isNumeral_zeroPadded (by decide) (by norm_num [tmOf]; omega)
  hour_eq := by
    obtain ⟨width, -, hnumeral⟩ := hhour
    exact hnumeral.length_eq.symm ▸ hnumeral
  hour_length := by
    obtain ⟨width, hwidth, hnumeral⟩ := hhour
    exact hnumeral.length_eq.symm ▸ hwidth
  minute_eq := by
    have hminute := c.minute_mem
    exact isNumeral_zeroPadded (by decide) (by norm_num [tmOf]; omega)
  second_eq := by
    have hsecond := c.second_mem
    exact isNumeral_zeroPadded (by decide) (by norm_num [tmOf]; omega)
  name_eq := by
    have hmonth := c.date.month_mem
    have hlt : (c.month - 1).toNat < months.length := by
      rw [show months.length = 12 from rfl]
      omega
    rw [monthName, List.getD_eq_getElem?_getD, show (tmOf c).mon = c.month - 1 from rfl,
      List.getElem?_eq_getElem hlt, Option.getD_some]

/-- The styles of timestamps with a zone. -/
def zonedStyles : List TimestampStyle := [.iso8601, .compactWithT, .apache, .monthDayYear]

theorem exists_shows {token : TimestampToken} (hstyle : token.style ∈ zonedStyles)
    (hseparators : token.style = .iso8601 →
      token.dateSeparator ∈ bytes "-/" ∧ token.dateTimeSeparator ∈ bytes "T ")
    (c : CivilTime) (hyear : 1677 ≤ c.year ∧ c.year ≤ 2262) :
    ∃ text, Shows token.style c text ∧ bufferText token (tmOf c) =
      text ++ if token.style = .apache then bytes " " ++ token.zoneSuffix else [] := by
  have hhour := c.hour_mem
  have htwo : IsNumeral 2 c.hour (zeroPadded 2 c.hour) :=
    isNumeral_zeroPadded (by decide) (by norm_num; omega)
  let f := figuresOf c hyear (hourText token (tmOf c)) (isNumeral_hourText token c)
  let f₂ := figuresOf c hyear (zeroPadded 2 c.hour) ⟨2, .inr rfl, htwo⟩
  have hlength : f₂.hour.length = 2 := htwo.length_eq
  simp only [zonedStyles, List.mem_cons, List.not_mem_nil, or_false] at hstyle
  rcases hstyle with hstyle | hstyle | hstyle | hstyle
  all_goals rw [hstyle]
  · obtain ⟨hdate, hdateTime⟩ := hseparators hstyle
    refine ⟨_, ⟨f, _, hdate, _, hdateTime, rfl⟩, ?_⟩
    simp [bufferText, hstyle, dateText, minuteSecond, f, figuresOf, Figures.clock]
  · refine ⟨_, ⟨f₂, hlength, rfl⟩, ?_⟩
    simp [bufferText, hstyle, compactDateText, compactClockText, f₂, figuresOf, tmOf]
  · refine ⟨_, ⟨f₂, hlength, rfl⟩, ?_⟩
    simp [bufferText, hstyle, clockText, minuteSecond, f₂, figuresOf, Figures.clock, tmOf]
  · refine ⟨_, ⟨f₂, hlength, rfl⟩, ?_⟩
    simp [bufferText, hstyle, monthDayText, clockText, minuteSecond, f₂, figuresOf, Figures.clock,
      tmOf]

theorem snprintf_eq {size : ℕ} {text : Bytes} (hzero : 0 ∉ text) (hlength : text.length < size) :
    snprintf size text = text := by
  have hall : text.takeWhile (· ≠ 0) = text := by
    rw [List.takeWhile_eq_self_iff]
    exact fun b hb => decide_eq_true fun h => hzero (h ▸ hb)
  rw [snprintf, hall, List.take_of_length_le (by omega)]

theorem Shows.fits_buffer {style : TimestampStyle} {c : CivilTime} {text : Bytes}
    (h : Shows style c text) : 0 ∉ text ∧ text.length ≤ 30 := by
  obtain ⟨f, h⟩ := h
  have hnames : ∀ name ∈ months, 0 ∉ name ∧ name.length = 3 := by decide
  obtain ⟨hname, hnameLength⟩ := hnames f.name (List.mem_of_getElem? f.name_eq)
  have hdigit : isDigit 0 = false := by decide
  have hyear := f.year_eq.not_mem hdigit
  have hmonth := f.month_eq.not_mem hdigit
  have hday := f.day_eq.not_mem hdigit
  have hhour := f.hour_eq.not_mem hdigit
  have hminute := f.minute_eq.not_mem hdigit
  have hsecond := f.second_eq.not_mem hdigit
  have hhourLength := f.hour_length
  have hcolon : 0 ∉ bytes ":" := by decide
  have hclock : 0 ∉ f.clock ∧ f.clock.length ≤ 8 := by
    constructor
    · simp only [Figures.clock, List.mem_append, hhour, hminute, hsecond, hcolon, or_self,
        not_false_eq_true]
    · simp only [Figures.clock, List.length_append, f.minute_eq.length_eq, f.second_eq.length_eq]
      rw [show (bytes ":").length = 1 from rfl]
      omega
  have hslash : 0 ∉ bytes "/" ∧ (bytes "/").length = 1 := by decide
  have hspace : 0 ∉ bytes " " ∧ (bytes " ").length = 1 := by decide
  have hT : 0 ∉ bytes "T" ∧ (bytes "T").length = 1 := by decide
  have hcolonLength : (bytes ":").length = 1 := rfl
  cases style
  case iso8601 =>
    obtain ⟨separator, hseparator, between, hbetween, rfl⟩ := h
    have hdash : ∀ b ∈ bytes "-/", b ≠ 0 := by decide
    have hT : ∀ b ∈ bytes "T ", b ≠ 0 := by decide
    simp only [List.mem_append, List.mem_singleton, List.length_append, List.length_singleton,
      hyear, hmonth, hday, hclock.1, (hdash separator hseparator).symm, (hT between hbetween).symm,
      f.year_eq.length_eq, f.month_eq.length_eq, f.day_eq.length_eq, or_self, not_false_eq_true,
      true_and]
    omega
  case compactWithT =>
    obtain ⟨hlength, rfl⟩ := h
    simp only [List.mem_append, List.length_append, hyear, hmonth, hday, hhour, hminute, hsecond, hT,
      f.year_eq.length_eq, f.month_eq.length_eq, f.day_eq.length_eq, f.minute_eq.length_eq,
      f.second_eq.length_eq, or_self, not_false_eq_true, true_and]
    omega
  case apache =>
    obtain ⟨hlength, rfl⟩ := h
    simp only [List.mem_append, List.length_append, hyear, hday, hname, hclock.1, hslash, hcolon,
      hcolonLength, hnameLength, f.year_eq.length_eq, f.day_eq.length_eq, or_self,
      not_false_eq_true, true_and]
    omega
  case monthDayYear =>
    obtain ⟨hlength, rfl⟩ := h
    simp only [List.mem_append, List.length_append, hyear, hday, hname, hclock.1, hspace,
      hnameLength, f.year_eq.length_eq, f.day_eq.length_eq, or_self, not_false_eq_true, true_and]
    omega
  all_goals exact h.elim

theorem showsFraction {digits : ℕ} (hdigits : digits ≤ 9) (point : ℤ) :
    ShowsFraction digits point (fractionText point digits) := by
  unfold ShowsFraction fractionText
  split_ifs with hzero
  · rfl
  · have hnumeral : IsNumeral 9 (point % nanosecondsPerSecond)
        (zeroPadded 9 (point % nanosecondsPerSecond)) := by
      unfold nanosecondsPerSecond
      exact isNumeral_zeroPadded (by decide) (by norm_num; omega)
    exact ⟨_, rfl, hnumeral.take hdigits⟩

theorem showsWeekday (token : TimestampToken) (c : CivilTime) : ShowsWeekday token c
    (if token.hasWeekday then weekdays.getD (tmOf c).wday.toNat [] ++ [space] else []) := by
  unfold ShowsWeekday
  split_ifs
  · have hweekday := c.weekday_mem
    have hlt : c.weekday.toNat < weekdays.length := by
      rw [show weekdays.length = 7 from rfl]
      omega
    refine ⟨_, List.getElem?_eq_getElem hlt, ?_⟩
    rw [List.getD_eq_getElem?_getD, show (tmOf c).wday = c.weekday from rfl,
      List.getElem?_eq_getElem hlt, Option.getD_some]
    rfl
  · rfl

/-- A token with the zone, as `make_token` has read it from a recognised text. -/
structure Zoned (token : TimestampToken) (zone : Bytes) (offset : ℤ) : Prop where
  style_mem : token.style ∈ zonedStyles
  separators : token.style = .iso8601 →
    token.dateSeparator ∈ bytes "-/" ∧ token.dateTimeSeparator ∈ bytes "T "
  digits_le : token.fractionalDigits ≤ 9
  whole : token.style = .apache ∨ token.style = .monthDayYear → token.fractionalDigits = 0
  suffix_eq : token.zoneSuffix = zone
  suffix_ne_nil : zone ≠ []
  suffix_fits : token.style = .apache → 0 ∉ zone ∧ zone.length ≤ 30
  offset_eq : token.zoneOffsetMinutes = offset

variable {token : TimestampToken} {zone : Bytes} {offset : ℤ}

/-- A token writes the fields it is given, and its zone behind them. -/
theorem Zoned.showsInstant (h : Zoned token zone offset) {localTime : ℤ → Tm} {point shift : ℤ}
    {calendarTime : Bool} {c : CivilTime} (hyear : 1677 ≤ c.year ∧ c.year ≤ 2262)
    (htime : makeTime localTime point token calendarTime = tmOf c)
    (hseconds : c.seconds - shift * 60 = point / nanosecondsPerSecond) :
    ShowsInstant token zone shift point (timestampText localTime token point calendarTime) := by
  obtain ⟨text, htext, hbuffer⟩ := exists_shows h.style_mem h.separators c hyear
  obtain ⟨hzero, hlength⟩ := htext.fits_buffer
  refine ⟨c, _, text, fractionText point token.fractionalDigits, ?_, showsWeekday token c, htext,
    showsFraction h.digits_le point, hseconds⟩
  unfold timestampText
  simp only [htime, hbuffer]
  have hsuffix := h.suffix_eq
  have hne := h.suffix_ne_nil
  have hstyle := h.style_mem
  have hnone : fractionText point 0 = [] := rfl
  simp only [zonedStyles, List.mem_cons, List.not_mem_nil, or_false] at hstyle
  rcases hstyle with hstyle | hstyle | hstyle | hstyle
  · simp [hstyle, snprintf_eq hzero (show text.length < 64 by omega), timestampTail, zoneSeparator,
      hsuffix]
  · simp [hstyle, snprintf_eq hzero (show text.length < 64 by omega), timestampTail, zoneSeparator,
      hsuffix]
  · obtain ⟨hzoneZero, hzoneLength⟩ := h.suffix_fits hstyle
    have hspace : 0 ∉ bytes " " ∧ (bytes " ").length = 1 := by decide
    have hall : snprintf 64 (text ++ (bytes " " ++ zone)) = text ++ (bytes " " ++ zone) := by
      apply snprintf_eq
      · simp only [List.mem_append, hzero, hspace, hzoneZero, or_self, not_false_eq_true]
      · simp only [List.length_append]
        omega
    simp [hstyle, hsuffix, hall, timestampTail, zoneSeparator, h.whole (.inl hstyle), hnone]
  · simp [hstyle, snprintf_eq hzero (show text.length < 64 by omega), timestampTail, zoneSeparator,
      hsuffix, hne, h.whole (.inr hstyle), hnone]

theorem Zoned.rendersInstant (h : Zoned token zone offset) : RendersInstant token zone offset := by
  intro localTime point hpoint
  constructor
  · intro hshifted
    obtain ⟨c, hseconds, htm⟩ :=
      convertUtcTime_eq (point + offset * 60 * nanosecondsPerSecond)
    have hdiv : (point + offset * 60 * nanosecondsPerSecond) / nanosecondsPerSecond =
        point / nanosecondsPerSecond + offset * 60 :=
      Int.add_mul_ediv_right _ _ (by decide)
    apply h.showsInstant (c.year_mem _)
    · rw [makeTime, if_neg (by decide), if_pos (h.suffix_eq ▸ h.suffix_ne_nil), h.offset_eq, htm]
    · rw [hseconds, hdiv, add_sub_cancel_right]
    · rw [hseconds]
      unfold Fits at hshifted
      unfold nanosecondsPerSecond at *
      omega
  · obtain ⟨c, hseconds, htm⟩ := convertUtcTime_eq point
    apply h.showsInstant (c.year_mem _)
    · rw [makeTime, if_pos rfl, htm]
    · rw [hseconds, zero_mul, sub_zero]
    · rw [hseconds]
      unfold Fits at hpoint
      unfold nanosecondsPerSecond
      omega

theorem makeToken_style (style : TimestampStyle) (value : Bytes) :
    (makeToken style value).style = style := by
  have hzone (token : TimestampToken) (position : Option ℕ) :
      (token.withZone value position).style = token.style := by
    cases position <;> rfl
  have hfraction (token : TimestampToken) (dot : Option ℕ) :
      (token.withFraction value dot).style = token.style := by
    cases dot <;> rfl
  cases style
  case iso8601 | compactWithT | apache => simp only [makeToken, hzone, hfraction]
  case monthDayYear =>
    simp only [makeToken]
    split
    · rfl
    · split_ifs <;> rfl
  all_goals rfl

theorem fractionalDigits_makeToken (style : TimestampStyle) (value : Bytes) :
    (makeToken style value).fractionalDigits ≤ 9 ∧
      (style = .apache ∨ style = .monthDayYear → (makeToken style value).fractionalDigits = 0) := by
  have hzone (token : TimestampToken) (position : Option ℕ) :
      (token.withZone value position).fractionalDigits = token.fractionalDigits := by
    cases position <;> rfl
  have hfraction {token : TimestampToken} (h : token.fractionalDigits = 0) (dot : Option ℕ) :
      (token.withFraction value dot).fractionalDigits ≤ 9 := by
    cases dot with
    | none => exact h.le.trans (Nat.zero_le 9)
    | some dot => exact Nat.min_le_left 9 _
  cases style
  case iso8601 | compactWithT =>
    simp only [makeToken, hzone]
    exact ⟨hfraction rfl _, by simp⟩
  case apache =>
    simp only [makeToken, hzone]
    exact ⟨Nat.zero_le 9, fun _ => trivial⟩
  case monthDayYear =>
    simp only [makeToken]
    split
    · exact ⟨Nat.zero_le 9, fun _ => rfl⟩
    · split_ifs
      · exact ⟨Nat.zero_le 9, fun _ => rfl⟩
      · exact ⟨Nat.zero_le 9, fun _ => rfl⟩
  case timeOnly =>
    simp only [makeToken]
    split
    · exact ⟨Nat.zero_le 9, by simp⟩
    · exact ⟨Nat.min_le_left 9 _, by simp⟩
  all_goals exact ⟨Nat.zero_le 9, fun _ => rfl⟩

variable {style : TimestampStyle} {value core : Bytes}

theorem zoned_makeToken (h : Recognised style value) (hstyle : style ∈ zonedStyles)
    (hvalue : value = core ++ zone) (hzone : ZoneText zone offset)
    (hspace : style = .monthDayYear → core.getLast? = some space) :
    Zoned (makeToken style value) zone offset := by
  obtain ⟨hdigits, hwhole⟩ := fractionalDigits_makeToken style value
  have hkept : (makeToken style value).zoneSuffix = zone ∧
      (makeToken style value).zoneOffsetMinutes = offset := by
    simp only [zonedStyles, List.mem_cons, List.not_mem_nil, or_false] at hstyle
    rcases hstyle with rfl | rfl | rfl | rfl
    · exact (makeToken_iso8601 h hvalue hzone).1
    · exact makeToken_compactWithT h hvalue hzone
    · exact (makeToken_apache h hvalue hzone).1
    · refine ⟨?_, ?_⟩
      · rw [makeToken_monthDayYear h hvalue hzone, if_pos (hspace rfl)]
      · rw [(h.monthDayYear_zone hvalue hzone).1]
        simp only [makeToken]
        split
        · rfl
        · split_ifs <;> rfl
  constructor
  · rwa [makeToken_style]
  · rw [makeToken_style]
    rintro rfl
    exact (makeToken_iso8601 h hvalue hzone).2
  · exact hdigits
  · rwa [makeToken_style]
  · exact hkept.1
  · exact hzone.ne_nil
  · rw [makeToken_style]
    rintro rfl
    obtain ⟨-, b, digits, rfl, hb, hlength, hall⟩ := makeToken_apache h hvalue hzone
    refine ⟨?_, ?_⟩
    · rw [List.mem_cons, not_or]
      constructor
      · rintro rfl
        exact absurd hb (by decide)
      · exact fun hmem => absurd (hall 0 hmem) (by decide)
    · rw [List.length_cons]
      omega
  · exact hkept.2

/-- `std::localtime` nine hours east of Greenwich. -/
def seoulTime (seconds : ℤ) : Tm := convertUtcTime ((seconds + 32400) * nanosecondsPerSecond)

/-- A token of this style without a zone ends with the seconds of the local time. -/
theorem getLast_timestampText (hstyle : token.style = .monthDayYear) (hsuffix : token.zoneSuffix = []) :
    (timestampText seoulTime token 0 false).getLast? = some 48 := by
  have htime : makeTime seoulTime 0 token false = seoulTime 0 := by
    rw [makeTime, if_neg (by decide), if_neg (not_not.mpr hsuffix)]
    rfl
  have hbuffer : ∀ token' : TimestampToken, token'.style = .monthDayYear →
      bufferText token' (seoulTime 0) = bytes "Jan 01 1970 09:00:00" := by
    intro token' hstyle'
    simp only [bufferText, hstyle']
    decide
  have htext : snprintf 64 (bytes "Jan 01 1970 09:00:00") ≠ [] := by decide
  unfold timestampText
  simp only [htime, hbuffer token hstyle, timestampTail, hstyle, hsuffix, ↓reduceIte,
    List.append_nil]
  rw [List.getLast?_append_of_ne_nil _ htext]
  decide

/-- A timestamp is rendered as the instant unless a byte other than a space is before the
name of its zone. -/
theorem rendersInstant_iff (h : Recognised style value) (hstyle : style ∈ zonedStyles)
    (hvalue : value = core ++ zone) (hzone : ZoneText zone offset) :
    RendersInstant (makeToken style value) zone offset ↔
      (style = .monthDayYear → core.getLast? = some space) := by
  constructor
  · rintro hrenders rfl
    by_contra hspace
    obtain ⟨hoffset, hname⟩ := h.monthDayYear_zone hvalue hzone
    have hsuffix := makeToken_monthDayYear h hvalue hzone
    rw [if_neg hspace] at hsuffix
    obtain ⟨c, weekday, text, fraction, houtput, -⟩ :=
      (hrenders seoulTime 0 (by decide)).1 (by rw [hoffset]; decide)
    have hlast := getLast_timestampText (makeToken_style _ _) hsuffix
    rw [houtput, List.getLast?_append_of_ne_nil _ hzone.ne_nil] at hlast
    rcases hname with rfl | rfl
    · exact absurd hlast (by decide)
    · exact absurd hlast (by decide)
  · intro hspace
    exact (zoned_makeToken h hstyle hvalue hzone hspace).rendersInstant

theorem rendersInstant_iff_iso8601 :
    RendersInstant (makeToken .iso8601 (bytes "2024-02-29T12:34:56.789+09:00")) (bytes "+09:00")
        (60 * 9 + 0) ↔
      (TimestampStyle.iso8601 = .monthDayYear →
        (bytes "2024-02-29T12:34:56.789").getLast? = some space) := by
  have hhours : IsNumeral 2 9 (bytes "09") := ⟨rfl, by decide, rfl⟩
  have hminutes : IsNumeral 2 0 (bytes "00") := ⟨rfl, by decide, rfl⟩
  have hzone : ZoneText (bytes "+09:00") (60 * 9 + 0) := by
    rw [show bytes "+09:00" = bytes "+" ++ bytes "09" ++ bytes ":" ++ bytes "00" from by decide]
    exact .east hhours hminutes (.inr rfl)
  refine rendersInstant_iff ?_ (by decide) (by decide) hzone
  exact recognised_of_mem 0 (by decide) (bytes "2024-02-29T12:34:56.789+09:00") (by decide)

theorem tab_before_zone : ∃ (style : TimestampStyle) (value core zone : Bytes) (offset : ℤ),
    Recognised style value ∧ style ∈ zonedStyles ∧ value = core ++ zone ∧ ZoneText zone offset ∧
      ¬ RendersInstant (makeToken style value) zone offset := by
  refine ⟨.monthDayYear, bytes "Jan 02 2024 03:04:05\tGMT", bytes "Jan 02 2024 03:04:05\t",
    bytes "GMT", 0, ?_, by decide, rfl, .utc (by decide), ?_⟩
  · exact recognised_of_mem 2 (by decide) (bytes "Jan 02 2024 03:04:05\tGMT") (by decide)
  · intro hrenders
    obtain ⟨c, weekday, text, fraction, houtput, -⟩ :=
      (hrenders seoulTime 0 (by decide)).1 (by decide)
    have htext : timestampText seoulTime (makeToken .monthDayYear
        (bytes "Jan 02 2024 03:04:05\tGMT")) 0 false = bytes "Jan 01 1970 09:00:00" := by
      decide
    have hlast := congrArg List.getLast? houtput
    rw [htext, List.getLast?_append_of_ne_nil _ (by decide)] at hlast
    exact absurd hlast (by decide)

end Application
end LogGenerator
