import LogGenerator.Application.LogPreparationCache
import LogGenerator.Application.TimestampCursor
import LogGenerator.Presentation.CliApp

/-!
# Time options

The way from the time options of the command line to the time point that is rendered, in
the arithmetic of 64-bit clocks.
-/

namespace LogGenerator
namespace Presentation

open Ascii Application Domain CliApp

/-- `TimeOffset::value`, each sum in the finer of its two units. -/
def offsetSeconds (o : TimeOffset) : Option ℤ := do
  let hours ← checked (o.days * 24)
  let hours ← checked (hours + o.hours)
  let minutes ← checked (hours * 60)
  let minutes ← checked (minutes + o.minutes)
  let seconds ← checked (minutes * 60)
  if o.negative then checked (-seconds) else some seconds

theorem offsetSeconds_of_bounds {o : TimeOffset} (hdays : 0 ≤ o.days ∧ o.days < 2 ^ 31)
    (hhours : 0 ≤ o.hours ∧ o.hours < 24) (hminutes : 0 ≤ o.minutes ∧ o.minutes < 60) :
    offsetSeconds o = some o.value := by
  have hfits {x : ℤ} (hlow : -1000000000000000 ≤ x) (hhigh : x ≤ 1000000000000000) :
      checked x = some x := checked_of_fits ⟨by omega, by omega⟩
  unfold offsetSeconds TimeOffset.value
  simp only [Option.bind_eq_bind]
  rw [hfits (by omega) (by omega), Option.bind_some, hfits (by omega) (by omega), Option.bind_some,
    hfits (by omega) (by omega), Option.bind_some, hfits (by omega) (by omega), Option.bind_some,
    hfits (by omega) (by omega), Option.bind_some]
  split_ifs
  · rw [hfits (by omega) (by omega)]
    ring_nf
  · ring_nf

theorem splitOffset_value (minutes : ℤ) : (splitOffset minutes).value = 60 * minutes := by
  unfold splitOffset TimeOffset.value minutesPerDay
  have hsplit : (minutes.natAbs : ℤ) = (minutes.natAbs / 1440 : ℕ) * 1440 +
      (minutes.natAbs % 1440 / 60 : ℕ) * 60 + (minutes.natAbs % 60 : ℕ) := by omega
  simp only [decide_eq_true_eq]
  split_ifs with hnegative
  · omega
  · omega

/-- The split of an accepted offset is put together again without an overflow. -/
theorem offsetSeconds_splitOffset {minutes : ℤ}
    (h : minutes.natAbs / minutesPerDay ≤ 2 ^ 31 - 1) :
    offsetSeconds (splitOffset minutes) = some (60 * minutes) := by
  rw [← splitOffset_value]
  apply offsetSeconds_of_bounds
  all_goals
    simp only [splitOffset, minutesPerDay] at h ⊢
    omega

theorem offsetSeconds_eq {o : TimeOffset} {seconds : ℤ} (h : offsetSeconds o = some seconds) :
    seconds = o.value := by
  unfold offsetSeconds at h
  simp only [Option.bind_eq_bind, Option.bind_eq_some_iff, checked_eq_some_iff] at h
  obtain ⟨_, ⟨-, rfl⟩, _, ⟨-, rfl⟩, _, ⟨-, rfl⟩, _, ⟨-, rfl⟩, _, ⟨-, rfl⟩, h⟩ := h
  unfold TimeOffset.value
  split_ifs at h ⊢ with hnegative
  · rw [← (checked_eq_some_iff.mp h).2]
    ring
  · rw [← Option.some.inj h]
    ring

/-- `now + offset_` in `PreparedLog::render`; the offset is in seconds. -/
def adjustedPoint (offset now : ℤ) : Option ℤ := do
  let offset ← toNanoseconds offset
  checked (now + offset)

/-- The shift to the zone of the token in `make_time`. -/
def shiftedPoint (token : TimestampToken) (calendarTime : Bool) (point : ℤ) : Option ℤ :=
  if calendarTime = false ∧ token.zoneSuffix ≠ [] ∧ token.zoneOffsetMinutes ≠ 0 then do
    let shift ← checked (token.zoneOffsetMinutes * 60 * nanosecondsPerSecond)
    checked (point + shift)
  else some point

theorem adjustedPoint_eq_some {offset now point : ℤ} : adjustedPoint offset now = some point ↔
    Fits (offset * nanosecondsPerSecond) ∧ Fits (now + offset * nanosecondsPerSecond) ∧
      now + offset * nanosecondsPerSecond = point := by
  unfold adjustedPoint toNanoseconds
  simp only [Option.bind_eq_bind, Option.bind_eq_some_iff, checked_eq_some_iff]
  constructor
  · rintro ⟨_, ⟨hoffset, rfl⟩, hsum, rfl⟩
    exact ⟨hoffset, hsum, rfl⟩
  · rintro ⟨hoffset, hsum, rfl⟩
    exact ⟨_, ⟨hoffset, rfl⟩, hsum, rfl⟩

/-- Where nothing overflows, the rendered time point is that of exact arithmetic. -/
theorem adjusted_eq {p : PreparedLog} {now point : ℤ} (h : adjustedPoint p.offset now = some point) :
    p.adjusted now = point := (adjustedPoint_eq_some.mp h).2.2

theorem makeTime_eq {localTime : ℤ → Tm} {token : TimestampToken} {point shifted : ℤ}
    {calendarTime : Bool} (h : shiftedPoint token calendarTime point = some shifted) :
    makeTime localTime point token calendarTime =
      if calendarTime = true ∨ token.zoneSuffix ≠ [] then convertUtcTime shifted
      else localTime (toTimeT point) := by
  unfold shiftedPoint at h
  unfold makeTime
  cases calendarTime with
  | true =>
    simp only [Bool.true_eq_false, false_and, ↓reduceIte, Option.some.injEq] at h
    simp [h]
  | false =>
    by_cases hzone : token.zoneSuffix = []
    · simp [hzone]
    · simp only [hzone, ne_eq, not_false_eq_true, true_and] at h ⊢
      split_ifs at h with hminutes
      · simp [hminutes, Option.some.inj h]
      · obtain ⟨shift, hshift, hsum⟩ := Option.bind_eq_some_iff.mp h
        obtain ⟨-, rfl⟩ := checked_eq_some_iff.mp hshift
        simp [(checked_eq_some_iff.mp hsum).2]

theorem charValue_mem : ∀ b : UInt8, -128 ≤ charValue b ∧ charValue b ≤ 127 := by
  decide

theorem parseZoneOffset_mem (suffix : Bytes) :
    -118096 ≤ parseZoneOffset suffix ∧ parseZoneOffset suffix ≤ 118096 := by
  have h₁ := charValue_mem (suffix.getD 1 0)
  have h₂ := charValue_mem (suffix.getD 2 0)
  have h₃ := charValue_mem (suffix.getD 3 0)
  have h₄ := charValue_mem (suffix.getD 4 0)
  have h₄' := charValue_mem (suffix.getD (3 + 1) 0)
  have h₅ := charValue_mem (suffix.getD (4 + 1) 0)
  unfold parseZoneOffset
  dsimp only
  split_ifs
  all_goals omega

/-- The offset of a token is that of its suffix, or zero. -/
theorem zoneOffsetMinutes_mem (style : TimestampStyle) (value : Bytes) :
    -118096 ≤ (makeToken style value).zoneOffsetMinutes ∧
      (makeToken style value).zoneOffsetMinutes ≤ 118096 := by
  have hzone (token : TimestampToken) (h : token.zoneOffsetMinutes = 0) (position : Option ℕ) :
      -118096 ≤ (token.withZone value position).zoneOffsetMinutes ∧
        (token.withZone value position).zoneOffsetMinutes ≤ 118096 := by
    cases position with
    | none =>
      simp only [TimestampToken.withZone, h]
      omega
    | some position => exact parseZoneOffset_mem _
  have hfraction (token : TimestampToken) (h : token.zoneOffsetMinutes = 0) (dot : Option ℕ) :
      (token.withFraction value dot).zoneOffsetMinutes = 0 := by
    cases dot with
    | none => exact h
    | some dot => exact h
  have hzero : (-118096 : ℤ) ≤ 0 ∧ (0 : ℤ) ≤ 118096 := by omega
  cases style
  case iso8601 => exact hzone _ (hfraction _ rfl _) _
  case compactWithT => exact hzone _ (hfraction _ rfl _) _
  case apache => exact hzone _ rfl _
  case monthDayYear =>
    simp only [makeToken]
    split
    · exact hzero
    · split_ifs
      · exact hzero
      · exact hzero
  all_goals exact hzero

theorem shiftedPoint_eq_none {style : TimestampStyle} {value : Bytes} {point : ℤ} :
    shiftedPoint (makeToken style value) false point = none ↔
      (makeToken style value).zoneSuffix ≠ [] ∧ (makeToken style value).zoneOffsetMinutes ≠ 0 ∧
        ¬ Fits (point + (makeToken style value).zoneOffsetMinutes * 60 * nanosecondsPerSecond) := by
  have hzone := zoneOffsetMinutes_mem style value
  have hshift : Fits ((makeToken style value).zoneOffsetMinutes * 60 * nanosecondsPerSecond) := by
    unfold Fits nanosecondsPerSecond
    omega
  unfold shiftedPoint
  simp only [checked_of_fits hshift, Option.bind_eq_bind, Option.bind_some, true_and]
  split_ifs with h
  · rw [checked_eq_none_iff]
    exact ⟨fun hfits => ⟨h.1, h.2, hfits⟩, fun hfits => hfits.2.2⟩
  · constructor
    · exact nofun
    · exact fun hall => absurd ⟨hall.1, hall.2.1⟩ h

/-- Every worker gets a time point for each call, and it is the second of the days meant that
its turn comes to. -/
def ExactSeconds (generation : TimestampGeneration) (start stop : ℤ) : Prop :=
  ∀ (W : ℕ) (highRate : Bool) (reading : Fin W → ℤ), ∃ cursors : Fin W → TimestampCursor,
    (∀ i : Fin W, TimestampCursor.make generation i W highRate (reading i) = .ok (cursors i)) ∧
    ∀ s, (handout cursors).Reachable s → ∀ i,
      (∀ now, s.call i now ≠ none) ∧
      ∀ k point, (s.handed i)[k]? = some point → ∃ second, 0 ≤ second ∧
        second < (stop - start + 1) * 86400 ∧
        second = (i + k * W : ℕ) % ((stop - start + 1) * 86400) ∧
        point = (start * 86400 + second) * nanosecondsPerSecond

/-- The range of whole days. -/
def wholeDays (start stop : ℤ) : TimeRange := ⟨start * 86400, (stop + 1) * 86400 - 1⟩

theorem inclusiveSeconds_wholeDays {start stop : ℤ} (h : start ≤ stop) :
    ((wholeDays start stop).inclusiveSeconds : ℤ) = (stop - start + 1) * 86400 := by
  have hvalid : (wholeDays start stop).valid = true := by
    apply decide_eq_true
    dsimp only [wholeDays]
    omega
  rw [inclusiveSeconds_of_valid hvalid, wholeDays]
  ring

theorem exactSeconds_of_inClock {generation : TimestampGeneration} {start stop : ℤ}
    (hle : start ≤ stop) (hmode : generation.mode = .range)
    (hrange : generation.range = wholeDays start stop) (hclock : InClock generation.range) :
    ExactSeconds generation start stop := by
  intro W highRate reading
  choose cursors hmake hat using fun i : Fin W =>
    TimestampCursor.exists_make hmode hclock W i highRate (reading i)
  refine ⟨cursors, hmake, fun s hs i => ?_⟩
  have hsharing := Sharing.of_reachable hs hmode hclock hat
  constructor
  · intro now
    obtain ⟨s', hcall, -⟩ := hsharing.call hmode hclock i now
    simp [hcall]
  · intro k point hpoint
    rw [(hsharing i).2] at hpoint
    obtain ⟨hk, rfl⟩ := List.getElem?_eq_some_iff.mp hpoint
    have hspan := inclusiveSeconds_wholeDays hle
    have hpos := hclock.inclusiveSeconds_pos
    rw [hrange] at hpos
    refine ⟨((i + k * W) % (wholeDays start stop).inclusiveSeconds : ℕ), Int.natCast_nonneg _, ?_,
      ?_, ?_⟩
    · rw [← hspan]
      exact_mod_cast Nat.mod_lt _ hpos
    · rw [← hspan]
      norm_cast
    · simp only [strideOf, List.getElem_map, List.getElem_range, hrange, cyclicSecond]
      rfl

theorem generation_of_make {generation : TimestampGeneration} {W i : ℕ} {highRate : Bool}
    {reading : ℤ} {c : TimestampCursor}
    (h : TimestampCursor.make generation i W highRate reading = .ok c) :
    c.generation = generation := by
  unfold TimestampCursor.make at h
  dsimp only at h
  split at h
  · cases h
    rfl
  · split_ifs at h
    cases h
    rfl

theorem next_range {c c' : TimestampCursor} {reading point : ℤ} (hmode : c.generation.mode = .range)
    (h : c.next reading = some (point, c')) : c'.generation = c.generation ∧ Fits point := by
  unfold TimestampCursor.next at h
  simp only [hmode, Option.bind_eq_bind, Option.bind_eq_some_iff] at h
  obtain ⟨seconds, -, result, hresult, h⟩ := h
  cases h
  exact ⟨rfl, (checked_eq_some_iff.mp hresult).2 ▸ (checked_eq_some_iff.mp hresult).1⟩

/-- Every time point that has been handed out fits the clock. -/
theorem handed_fits {generation : TimestampGeneration} (hmode : generation.mode = .range) {W : ℕ}
    {cursors : Fin W → TimestampCursor} (hcursors : ∀ i, (cursors i).generation = generation)
    {s : Handout W} (hs : (handout cursors).Reachable s) :
    ∀ i, (s.cursors i).generation = generation ∧ ∀ point ∈ s.handed i, Fits point := by
  apply hs.invariant
  · exact fun i => ⟨hcursors i, nofun⟩
  · rintro s ⟨i, reading⟩ t hs - hstep j
    change s.call i reading = some t at hstep
    unfold Handout.call at hstep
    split at hstep
    · cases hstep
    · rename_i point c hnext
      cases hstep
      have hcursor := (hs i).1
      obtain ⟨hgeneration, hpoint⟩ := next_range (hcursor ▸ hmode) hnext
      by_cases hij : j = i
      · subst hij
        simp only [Function.update_self]
        refine ⟨hgeneration.trans hcursor, fun p hp => ?_⟩
        rcases List.mem_append.mp hp with hp | hp
        · exact (hs j).2 p hp
        · rw [List.mem_singleton.mp hp]
          exact hpoint
      · simp only [Function.update_of_ne hij]
        exact hs j

/-- A worker whose calls never fail can be called as often as wanted. -/
theorem exists_handed {W : ℕ} {cursors : Fin W → TimestampCursor} (i : Fin W)
    (h : ∀ s, (handout cursors).Reachable s → ∀ now, s.call i now ≠ none) (n : ℕ) :
    ∃ s, (handout cursors).Reachable s ∧ (s.handed i).length = n := by
  induction n with
  | zero => exact ⟨_, .refl _, rfl⟩
  | succ n ih =>
    obtain ⟨s, hs, hlength⟩ := ih
    obtain ⟨t, ht⟩ := Option.ne_none_iff_exists'.mp (h s hs 0)
    refine ⟨t, hs.tail (i, 0) trivial ht, ?_⟩
    unfold Handout.call at ht
    split at ht
    · cases ht
    · cases ht
      simp [hlength]

theorem inClock_of_exactSeconds {generation : TimestampGeneration} {start stop : ℤ}
    (hle : start ≤ stop) (hmode : generation.mode = .range)
    (h : ExactSeconds generation start stop) : InClock (wholeDays start stop) := by
  obtain ⟨cursors, hmake, hruns⟩ := h 1 false fun _ => 0
  have hgeneration (i : Fin 1) : (cursors i).generation = generation :=
    generation_of_make (hmake i)
  obtain ⟨span, hspan⟩ : ∃ span : ℕ, (span : ℤ) = (stop - start + 1) * 86400 :=
    ⟨((stop - start + 1) * 86400).toNat, Int.toNat_of_nonneg (by omega)⟩
  -- one worker comes to every second of the range in turn
  have hfits (n : ℕ) (hn : n < span) : Fits ((start * 86400 + n) * nanosecondsPerSecond) := by
    obtain ⟨s, hs, hlength⟩ := exists_handed 0 (fun s hs => (hruns s hs 0).1) (n + 1)
    have hget : (s.handed 0)[n]? = some ((s.handed 0)[n]) := List.getElem?_eq_getElem (by omega)
    obtain ⟨second, -, -, hsecond, hpoint⟩ := (hruns s hs 0).2 n _ hget
    have hfit := (handed_fits hmode hgeneration hs 0).2 _ (List.getElem_mem (by omega : n < _))
    have hturn : second = n := by
      rw [hsecond, ← hspan]
      norm_cast
      simp [Nat.mod_eq_of_lt hn]
    rw [hpoint, hturn] at hfit
    exact hfit
  have hpos : 0 < span := by omega
  have hfirst := hfits 0 hpos
  have hlast := hfits (span - 1) (by omega)
  refine ⟨?_, ?_, ?_⟩
  · apply decide_eq_true
    dsimp only [wholeDays]
    omega
  · simpa [wholeDays] using hfirst
  · have hend : start * 86400 + ((span - 1 : ℕ) : ℤ) = (stop + 1) * 86400 - 1 := by omega
    rw [hend] at hlast
    exact hlast

/-- Every time that the arguments ask for is rendered as meant, without an overflow. -/
structure TimesRight (arguments : List Bytes) (options : CliOptions) (now : ℤ)
    (token : TimestampToken) : Prop where
  offset : ∀ minutes, requestedOffset arguments = some minutes →
    offsetSeconds options.config.timestampGeneration.offset = some (60 * minutes)
  sum : options.config.timestampGeneration.mode = .offset →
    let point := now + 60 * (requestedOffset arguments).getD 0 * nanosecondsPerSecond
    adjustedPoint (LogRenderer.timestampOffset options.config) now = some point ∧
      shiftedPoint token false point ≠ none
  range : ∀ start stop, requestedFrom arguments = some start → requestedTo arguments = some stop →
    ExactSeconds options.config.timestampGeneration start stop
  rendered : options.config.timestampGeneration.mode = .range → ∀ point, Fits point →
    adjustedPoint (LogRenderer.timestampOffset options.config) point = some point ∧
      shiftedPoint token true point = some point

/-- The offset and the sum, in nanoseconds, and the sum in the zone of the token fit the clock. -/
structure OffsetFits (minutes now : ℤ) (token : TimestampToken) : Prop where
  offset : Fits (60 * minutes * nanosecondsPerSecond)
  sum : Fits (now + 60 * minutes * nanosecondsPerSecond)
  zone : token.zoneSuffix ≠ [] → token.zoneOffsetMinutes ≠ 0 →
    Fits (now + 60 * minutes * nanosecondsPerSecond +
      token.zoneOffsetMinutes * 60 * nanosecondsPerSecond)

/-- With a range, no offset but zero and both ends within the clock; else an offset that fits. -/
def TimesHold (arguments : List Bytes) (now : ℤ) (token : TimestampToken) : Prop :=
  match requestedFrom arguments, requestedTo arguments with
  | some start, some stop => (requestedOffset arguments).getD 0 = 0 ∧
      Fits (start * 86400 * nanosecondsPerSecond) ∧
      Fits (((stop + 1) * 86400 - 1) * nanosecondsPerSecond)
  | _, _ => OffsetFits ((requestedOffset arguments).getD 0) now token

section

variable {arguments : List Bytes} {options : CliOptions} {now : ℤ} {style : TimestampStyle}
  {value : Bytes}

theorem timesRight_offset_iff (hfrom : requestedFrom arguments = none)
    (hbound : ((requestedOffset arguments).getD 0).natAbs / minutesPerDay ≤ 2 ^ 31 - 1)
    (hgeneration : options.config.timestampGeneration =
      { offset := splitOffset ((requestedOffset arguments).getD 0) }) :
    TimesRight arguments options now (makeToken style value) ↔
      OffsetFits ((requestedOffset arguments).getD 0) now (makeToken style value) := by
  have hmode : options.config.timestampGeneration.mode = .offset := by rw [hgeneration]
  have hvalue : LogRenderer.timestampOffset options.config =
      60 * (requestedOffset arguments).getD 0 := by
    rw [LogRenderer.timestampOffset, hgeneration]
    exact splitOffset_value _
  constructor
  · intro h
    obtain ⟨hadjusted, hshifted⟩ := h.sum hmode
    rw [hvalue, adjustedPoint_eq_some] at hadjusted
    obtain ⟨hoffset, hsum, -⟩ := hadjusted
    refine ⟨hoffset, hsum, fun hsuffix hminutes => ?_⟩
    by_contra hzone
    exact hshifted (shiftedPoint_eq_none.mpr ⟨hsuffix, hminutes, hzone⟩)
  · intro h
    refine ⟨fun minutes hminutes => ?_, fun _ => ⟨?_, ?_⟩, fun start stop hstart => ?_, fun h => ?_⟩
    · rw [hgeneration, offsetSeconds_splitOffset hbound, hminutes]
      rfl
    · rw [hvalue, adjustedPoint_eq_some]
      exact ⟨h.offset, h.sum, rfl⟩
    · intro hnone
      obtain ⟨hsuffix, hminutes, hzone⟩ := shiftedPoint_eq_none.mp hnone
      exact hzone (h.zone hsuffix hminutes)
    · rw [hfrom] at hstart
      cases hstart
    · rw [hmode] at h
      cases h

theorem timesRight_range_iff {start stop : ℤ} (hfrom : requestedFrom arguments = some start)
    (hto : requestedTo arguments = some stop) (hle : start ≤ stop)
    (hgeneration : options.config.timestampGeneration =
      { mode := .range, range := wholeDays start stop }) :
    TimesRight arguments options now (makeToken style value) ↔
      (requestedOffset arguments).getD 0 = 0 ∧ InClock (wholeDays start stop) := by
  have hmode : options.config.timestampGeneration.mode = .range := by rw [hgeneration]
  have hrange : options.config.timestampGeneration.range = wholeDays start stop := by
    rw [hgeneration]
  have hdefault : offsetSeconds options.config.timestampGeneration.offset = some 0 := by
    rw [hgeneration]
    change offsetSeconds {} = some 0
    decide
  constructor
  · intro h
    refine ⟨?_, inClock_of_exactSeconds hle hmode (h.range start stop hfrom hto)⟩
    cases hoffset : requestedOffset arguments with
    | none => rfl
    | some minutes =>
      have hminutes := h.offset minutes hoffset
      rw [hdefault, Option.some.injEq] at hminutes
      rw [Option.getD_some]
      omega
  · rintro ⟨hoffset, hclock⟩
    refine ⟨fun minutes hminutes => ?_, fun h => ?_, fun start' stop' hstart hstop => ?_, ?_⟩
    · rw [hminutes, Option.getD_some] at hoffset
      rw [hdefault, hoffset, mul_zero]
    · rw [hmode] at h
      cases h
    · rw [hfrom] at hstart
      rw [hto] at hstop
      cases hstart
      cases hstop
      exact exactSeconds_of_inClock hle hmode hrange (hrange ▸ hclock)
    · intro _ point hpoint
      have hzero : point + 0 * nanosecondsPerSecond = point := by rw [zero_mul, add_zero]
      rw [LogRenderer.timestampOffset, hmode, adjustedPoint_eq_some]
      dsimp only
      rw [hzero]
      exact ⟨⟨by decide, hpoint, rfl⟩, rfl⟩

/-- The times that accepted arguments ask for come out as meant exactly when they fit the clock
and no offset stands beside a range. -/
theorem times_right_iff (h : parseArguments arguments = .ok options) (now : ℤ)
    (style : TimestampStyle) (value : Bytes) :
    TimesRight arguments options now (makeToken style value) ↔
      TimesHold arguments now (makeToken style value) := by
  rcases (acceptedTimes h).generation with
    ⟨start, stop, hfrom, hto, hle, hgeneration⟩ | ⟨hfrom, hto, hbound, hgeneration⟩
  · rw [timesRight_range_iff hfrom hto hle hgeneration, TimesHold, hfrom, hto]
    refine and_congr_right fun _ => ⟨fun hclock => ⟨hclock.start, hclock.stop⟩, fun hfits => ?_⟩
    refine ⟨?_, hfits.1, hfits.2⟩
    apply decide_eq_true
    dsimp only [wholeDays]
    omega
  · rw [timesRight_offset_iff hfrom hbound hgeneration, TimesHold, hfrom, hto]

end

def offsetArguments (minutes : String) : List Bytes :=
  [bytes "run", bytes "--all", bytes "--offset-minutes", bytes minutes]

/-- An offset of an hour and a half into the past, at the epoch. -/
theorem times_right_iff_minutes : ∃ options,
    parseArguments (offsetArguments "-90") = .ok options ∧
      TimesRight (offsetArguments "-90") options 0 (makeToken .compact []) := by
  obtain ⟨options, hoptions⟩ := exists_accepted
    (show (parseArguments (offsetArguments "-90")).toOption.isSome = true by decide)
  refine ⟨options, hoptions, (times_right_iff hoptions 0 .compact []).mpr ?_⟩
  have hfrom : requestedFrom (offsetArguments "-90") = none := by decide
  have hoffset : requestedOffset (offsetArguments "-90") = some (-90) := by decide
  rw [TimesHold, hfrom, hoffset]
  exact ⟨by decide, by decide, fun h => absurd rfl h⟩

/-- An offset of 380 years is accepted, and overflows the clock. -/
theorem accepted_offset_overflows : ∃ options,
    parseArguments (offsetArguments "200000000") = .ok options ∧
      ¬ TimesRight (offsetArguments "200000000") options 0 (makeToken .compact []) := by
  obtain ⟨options, hoptions⟩ := exists_accepted
    (show (parseArguments (offsetArguments "200000000")).toOption.isSome = true by decide)
  refine ⟨options, hoptions, fun h => ?_⟩
  have hfrom : requestedFrom (offsetArguments "200000000") = none := by decide
  have hoffset : requestedOffset (offsetArguments "200000000") = some 200000000 := by
    decide
  rcases (acceptedTimes hoptions).generation with ⟨_, _, hstart, -⟩ | ⟨-, -, hbound, hgeneration⟩
  · rw [hfrom] at hstart
    cases hstart
  · have hfits := (timesRight_offset_iff hfrom hbound hgeneration).mp h
    rw [hoffset] at hfits
    exact absurd hfits.offset (by decide)

end Presentation
end LogGenerator
