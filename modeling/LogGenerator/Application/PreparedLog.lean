import LogGenerator.Application.LogRenderer

/-!
# Rendering a prepared log

`PreparedLog::render` with its three caches. Times are in nanoseconds since the
epoch, the offset is in seconds; the caches are keyed by a truncated second.
-/

namespace LogGenerator
namespace Application

open PrivacyAnonymizer

instance : NeZero syntheticProfileCount := ⟨by decide⟩

abbrev ProfileIndex := Fin syntheticProfileCount

structure PrivacyEntry where
  valid : Bool := false
  second : ℤ := -1
  calendarTime : Bool := false
  output : Bytes := []

structure PreparedLog where
  compiled : CompiledLog
  sourceIp : Bytes
  destinationIp : Bytes
  offset : ℤ
  randomState : UInt64
  cached : Bytes := []
  timestampCache : ℕ → Bytes := fun _ => []
  privacyCache : ProfileIndex → PrivacyEntry := fun _ => {}
  cachedSecond : ℤ := -1
  cachedCalendarTime : Bool := false

/-- What `append_non_timestamp_segment` appends. -/
def nonTimestampText (sourceIp destinationIp : Bytes) (profile : ProfileIndex) :
    RenderSegment → Bytes
  | .literal text => text
  | .privacy kind => syntheticValue kind profile
  | .sourceIp => sourceIp
  | .destinationIp => destinationIp
  | .timestamp _ => []

namespace PreparedLog

/-- The constructor, with the random state that `initialize_random_state` would draw. -/
def bind (compiled : CompiledLog) (sourceIp destinationIp : Bytes) (offset : ℤ)
    (randomState : UInt64) : PreparedLog where
  compiled := compiled
  sourceIp := sourceIp
  destinationIp := destinationIp
  offset := offset
  randomState := randomState
  cached :=
    if !compiled.hasTimestamp && !compiled.hasPrivacy then
      compiled.segments.flatMap (nonTimestampText sourceIp destinationIp 0)
    else []

/-- What copy construction and copy assignment make of `other`: the caches are empty, and the
state is drawn anew. -/
def copy (other : PreparedLog) (randomState : UInt64) : PreparedLog :=
  bind other.compiled other.sourceIp other.destinationIp other.offset randomState

/-- The xorshift step of `next_profile_index`. -/
def advance (state : UInt64) : UInt64 :=
  let state := state ^^^ (state >>> 12)
  let state := state ^^^ (state <<< 25)
  state ^^^ (state >>> 27)

/-- The index that the advanced state selects. -/
def profileOf (state : UInt64) : ProfileIndex :=
  Fin.ofNat syntheticProfileCount (state * 0x2545F4914F6CDD1D).toNat

def adjusted (p : PreparedLog) (now : ℤ) : ℤ := now + p.offset * nanosecondsPerSecond

/-- `std::chrono::duration_cast<std::chrono::seconds>`. -/
def truncatedSecond (point : ℤ) : ℤ := point.tdiv nanosecondsPerSecond

def refreshTimestamps (localTime : ℤ → Tm) (p : PreparedLog) (point : ℤ) (calendarTime : Bool) :
    PreparedLog :=
  { p with
    timestampCache := fun index =>
      match p.compiled.segments[index]? with
      | some (.timestamp token) => timestampText localTime token point calendarTime
      | _ => p.timestampCache index
    cachedSecond := truncatedSecond point
    cachedCalendarTime := calendarTime }

def refreshIfStale (localTime : ℤ → Tm) (p : PreparedLog) (point : ℤ) (calendarTime : Bool) :
    PreparedLog :=
  if p.compiled.hasPrivacy && p.compiled.hasTimestamp &&
      (truncatedSecond point != p.cachedSecond || calendarTime != p.cachedCalendarTime) then
    p.refreshTimestamps localTime point calendarTime
  else p

/-- The text of segment `index` in the last loop of `render`. -/
def segmentOutput (localTime : ℤ → Tm) (p : PreparedLog) (profile : ProfileIndex) (point : ℤ)
    (calendarTime : Bool) (segment : RenderSegment × ℕ) : Bytes :=
  match segment.1 with
  | .timestamp token =>
    if p.compiled.hasPrivacy then p.timestampCache segment.2
    else timestampText localTime token point calendarTime
  | other => nonTimestampText p.sourceIp p.destinationIp profile other

/-- The part of `render` behind the cache tests: the output is built and stored. -/
def rebuild (localTime : ℤ → Tm) (p : PreparedLog) (profile : ProfileIndex) (point : ℤ)
    (calendarTime : Bool) : Bytes × PreparedLog :=
  let second := truncatedSecond point
  let p := p.refreshIfStale localTime point calendarTime
  let output :=
    p.compiled.segments.zipIdx.flatMap (p.segmentOutput localTime profile point calendarTime)
  let p := { p with cachedSecond := second, cachedCalendarTime := calendarTime }
  if p.compiled.cachePrivacyProfiles then
    (output, { p with
      privacyCache := Function.update p.privacyCache profile
        { valid := true, second := second, calendarTime := calendarTime, output := output } })
  else (output, { p with cached := output })

def render (localTime : ℤ → Tm) (p : PreparedLog) (now : ℤ) (calendarTime : Bool) :
    Bytes × PreparedLog :=
  if !p.compiled.hasTimestamp && !p.compiled.hasPrivacy then (p.cached, p)
  else
    let point := p.adjusted now
    let second := truncatedSecond point
    if !p.compiled.hasPrivacy && second == p.cachedSecond &&
        calendarTime == p.cachedCalendarTime then (p.cached, p)
    else
      let p := if p.compiled.hasPrivacy then { p with randomState := advance p.randomState } else p
      let profile := if p.compiled.hasPrivacy then profileOf p.randomState else 0
      let entry := p.privacyCache profile
      if p.compiled.cachePrivacyProfiles && entry.valid && (!p.compiled.hasTimestamp ||
          (entry.second == second && entry.calendarTime == calendarTime)) then
        (entry.output, p)
      else p.rebuild localTime profile point calendarTime

end PreparedLog

structure RenderCall where
  now : ℤ
  calendarTime : Bool

/-- The outputs of a sequence of calls, and the log after them. -/
def renderAll (localTime : ℤ → Tm) : List RenderCall → PreparedLog → List Bytes × PreparedLog
  | [], p => ([], p)
  | call :: calls, p =>
    let (output, p) := p.render localTime call.now call.calendarTime
    let (outputs, p) := renderAll localTime calls p
    (output :: outputs, p)

/-- The text without any cache: the profile and the time point are given. -/
def plainText (localTime : ℤ → Tm) (compiled : CompiledLog) (sourceIp destinationIp : Bytes)
    (profile : ProfileIndex) (point : ℤ) (calendarTime : Bool) : Bytes :=
  compiled.segments.flatMap fun
    | .timestamp token => timestampText localTime token point calendarTime
    | other => nonTimestampText sourceIp destinationIp profile other

/-- The profile drawn at the call with index `i`. -/
def profileAt (compiled : CompiledLog) (randomState : UInt64) (i : ℕ) : ProfileIndex :=
  if compiled.hasPrivacy then PreparedLog.profileOf (PreparedLog.advance^[i + 1] randomState) else 0

def pointOf (offset : ℤ) (call : RenderCall) : ℤ := call.now + offset * nanosecondsPerSecond

def wholeSecond (point : ℤ) : ℤ := point / nanosecondsPerSecond

/-- Two calls whose points lie in different seconds that truncation takes for one. -/
def Conflated (offset : ℤ) (a b : RenderCall) : Prop :=
  a.calendarTime = b.calendarTime ∧
    PreparedLog.truncatedSecond (pointOf offset a) = PreparedLog.truncatedSecond (pointOf offset b) ∧
    wholeSecond (pointOf offset a) ≠ wholeSecond (pointOf offset b)

/-- The call has the key that the empty caches start with. -/
def HitsSentinel (offset : ℤ) (call : RenderCall) : Prop :=
  PreparedLog.truncatedSecond (pointOf offset call) = -1 ∧ call.calendarTime = false

/-- What is asked of a call after the calls of `history`: with a cache per profile any of
them may have filled the entry it reads, else only the last one. -/
def ClearCall (compiled : CompiledLog) (offset : ℤ) (history : List RenderCall)
    (call : RenderCall) : Prop :=
  compiled.hasTimestamp = true →
    (history = [] → ¬ HitsSentinel offset call) ∧
    (∀ earlier ∈ history, compiled.cachePrivacyProfiles = true ∨ history.getLast? = some earlier →
      ¬ Conflated offset earlier call)

def ClearCalls (compiled : CompiledLog) (offset : ℤ) (calls : List RenderCall) : Prop :=
  ∀ i (h : i < calls.length), ClearCall compiled offset (calls.take i) calls[i]

namespace PreparedLog

variable {localTime : ℤ → Tm} {compiled : CompiledLog} {sourceIp destinationIp : Bytes}
  {offset : ℤ} {randomState : UInt64} {history : List RenderCall} {call : RenderCall}
  {p : PreparedLog}

/-- A cached text with the key `(second, calendarTime)` was made for `point`. -/
structure Made (compiled : CompiledLog) (offset : ℤ) (history : List RenderCall) (second : ℤ)
    (calendarTime : Bool) (point : ℤ) : Prop where
  origin : ∃ a ∈ history, a.calendarTime = calendarTime ∧ pointOf offset a = point
  key : truncatedSecond point = second
  last : compiled.cachePrivacyProfiles = false → ∃ a, history.getLast? = some a ∧
    a.calendarTime = calendarTime ∧ truncatedSecond (pointOf offset a) = second ∧
    wholeSecond (pointOf offset a) = wholeSecond point

theorem Made.fresh (compiled : CompiledLog) (offset : ℤ) (history : List RenderCall)
    (call : RenderCall) :
    Made compiled offset (history ++ [call]) (truncatedSecond (pointOf offset call))
      call.calendarTime (pointOf offset call) := by
  refine ⟨⟨call, by simp, rfl, rfl⟩, rfl, ?_⟩
  intro _
  exact ⟨call, by simp, rfl, rfl, rfl⟩

/-- A clear call that finds its key finds a text of its own second. -/
theorem Made.wholeSecond_eq {point : ℤ}
    (h : Made compiled offset history (truncatedSecond (pointOf offset call)) call.calendarTime point)
    (hclear : ClearCall compiled offset history call) (htimestamp : compiled.hasTimestamp = true) :
    wholeSecond (pointOf offset call) = wholeSecond point := by
  obtain ⟨_, hconflated⟩ := hclear htimestamp
  by_contra hne
  cases hprofiles : compiled.cachePrivacyProfiles with
  | true =>
    obtain ⟨a, ha, hcalendar, rfl⟩ := h.origin
    exact hconflated a ha (.inl hprofiles) ⟨hcalendar, h.key, fun heq => hne heq.symm⟩
  | false =>
    obtain ⟨a, hlast, hcalendar, hkey, hsecond⟩ := h.last hprofiles
    apply hconflated a (List.mem_of_getLast? hlast) (.inr hlast)
    exact ⟨hcalendar, hkey, fun heq => hne (heq.symm.trans hsecond)⟩

/-- The text is still good after a call with the same key. -/
theorem Made.same_key {point : ℤ}
    (h : Made compiled offset history (truncatedSecond (pointOf offset call)) call.calendarTime point)
    (hsecond : wholeSecond (pointOf offset call) = wholeSecond point) :
    Made compiled offset (history ++ [call]) (truncatedSecond (pointOf offset call))
      call.calendarTime point := by
  obtain ⟨a, ha, hcalendar, hpoint⟩ := h.origin
  refine ⟨⟨a, List.mem_append_left _ ha, hcalendar, hpoint⟩, h.key, ?_⟩
  intro _
  exact ⟨call, by simp, rfl, rfl, hsecond⟩

/-- With a cache per profile it is still good after any call. -/
theorem Made.later {second : ℤ} {calendarTime : Bool} {point : ℤ}
    (h : Made compiled offset history second calendarTime point)
    (hprofiles : compiled.cachePrivacyProfiles = true) (call : RenderCall) :
    Made compiled offset (history ++ [call]) second calendarTime point := by
  obtain ⟨a, ha, hcalendar, hpoint⟩ := h.origin
  refine ⟨⟨a, List.mem_append_left _ ha, hcalendar, hpoint⟩, h.key, ?_⟩
  intro hno
  rw [hprofiles] at hno
  cases hno

/-- The texts of the timestamp segments are those of `point`. -/
def Stamped (localTime : ℤ → Tm) (p : PreparedLog) (point : ℤ) (calendarTime : Bool) : Prop :=
  ∀ index token, p.compiled.segments[index]? = some (.timestamp token) →
    p.timestampCache index = timestampText localTime token point calendarTime

def plain (localTime : ℤ → Tm) (p : PreparedLog) (profile : ProfileIndex) (point : ℤ)
    (calendarTime : Bool) : Bytes :=
  plainText localTime p.compiled p.sourceIp p.destinationIp profile point calendarTime

/-- The state after the calls of `history`. -/
structure Cached (localTime : ℤ → Tm) (randomState : UInt64) (history : List RenderCall)
    (p : PreparedLog) : Prop where
  randomState : p.compiled.hasPrivacy = true → p.randomState = advance^[history.length] randomState
  sentinel : history = [] → p.cachedSecond = -1 ∧ p.cachedCalendarTime = false
  constant : p.compiled.hasTimestamp = false → p.compiled.hasPrivacy = false →
    ∀ point calendarTime, p.cached = p.plain localTime 0 point calendarTime
  whole : p.compiled.hasTimestamp = true → p.compiled.hasPrivacy = false → history ≠ [] →
    ∃ point, Made p.compiled p.offset history p.cachedSecond p.cachedCalendarTime point ∧
      p.cached = p.plain localTime 0 point p.cachedCalendarTime
  stamped : p.compiled.hasTimestamp = true → p.compiled.hasPrivacy = true → history ≠ [] →
    ∃ point, Made p.compiled p.offset history p.cachedSecond p.cachedCalendarTime point ∧
      Stamped localTime p point p.cachedCalendarTime
  entries : p.compiled.cachePrivacyProfiles = true → ∀ profile,
    (p.privacyCache profile).valid = true → ∃ point,
      (p.privacyCache profile).output =
        p.plain localTime profile point (p.privacyCache profile).calendarTime ∧
      (p.compiled.hasTimestamp = true → Made p.compiled p.offset history
        (p.privacyCache profile).second (p.privacyCache profile).calendarTime point)

/-- What no call changes. -/
structure Same (p q : PreparedLog) : Prop where
  compiled : q.compiled = p.compiled
  sourceIp : q.sourceIp = p.sourceIp
  destinationIp : q.destinationIp = p.destinationIp
  offset : q.offset = p.offset

/-- What the call after `history` has to return. -/
def Faithful (localTime : ℤ → Tm) (p : PreparedLog) (randomState : UInt64)
    (history : List RenderCall) (call : RenderCall) (output : Bytes) : Prop :=
  ∃ a ∈ history ++ [call], a.calendarTime = call.calendarTime ∧
    wholeSecond (pointOf p.offset a) = wholeSecond (pointOf p.offset call) ∧
    output = p.plain localTime (profileAt p.compiled randomState history.length)
      (pointOf p.offset a) call.calendarTime

/-- Without timestamps the time point does not matter. -/
theorem plain_congr (localTime : ℤ → Tm) {p : PreparedLog} (h : p.compiled.hasTimestamp = false)
    (profile : ProfileIndex) (point point' : ℤ) (calendarTime calendarTime' : Bool) :
    p.plain localTime profile point calendarTime =
      p.plain localTime profile point' calendarTime' := by
  rw [p.compiled.hasTimestamp_eq, List.any_eq_false] at h
  apply List.flatMap_congr
  intro segment hsegment
  have hno := h segment hsegment
  cases segment with
  | timestamp token => exact absurd rfl hno
  | literal | privacy | sourceIp | destinationIp => rfl

theorem cached_bind (localTime : ℤ → Tm) (compiled : CompiledLog) (sourceIp destinationIp : Bytes)
    (offset : ℤ) (randomState : UInt64) :
    Cached localTime randomState [] (bind compiled sourceIp destinationIp offset randomState) := by
  refine ⟨fun _ => rfl, fun _ => ⟨rfl, rfl⟩, ?_, fun _ _ h => absurd rfl h,
    fun _ _ h => absurd rfl h, fun _ _ h => by cases h⟩
  intro htimestamp hprivacy point calendarTime
  have htimestamp' : compiled.hasTimestamp = false := htimestamp
  have hprivacy' : compiled.hasPrivacy = false := hprivacy
  simp only [bind, htimestamp', hprivacy', Bool.not_false, Bool.and_self, ↓reduceIte]
  have hnone := compiled.hasTimestamp_eq ▸ htimestamp'
  rw [List.any_eq_false] at hnone
  apply List.flatMap_congr
  intro segment hsegment
  have hno := hnone segment hsegment
  cases segment with
  | timestamp token => exact absurd rfl hno
  | literal | privacy | sourceIp | destinationIp => rfl

/-- The last loop of `render` gives the plain text when the timestamps it reads are right. -/
theorem flatMap_segmentOutput {p : PreparedLog} {profile : ProfileIndex} {point made : ℤ}
    {calendarTime : Bool}
    (h : if p.compiled.hasPrivacy then Stamped localTime p made calendarTime else made = point) :
    p.compiled.segments.zipIdx.flatMap (p.segmentOutput localTime profile point calendarTime) =
      p.plain localTime profile made calendarTime := by
  have hsegments : p.compiled.segments = p.compiled.segments.zipIdx.map Prod.fst := by simp
  rw [plain, plainText]
  conv_rhs => rw [hsegments]
  rw [List.flatMap_map]
  apply List.flatMap_congr
  rintro ⟨segment, index⟩ hmem
  have hindex : p.compiled.segments[index]? = some segment := by
    simpa using List.mem_zipIdx_iff_getElem?.mp hmem
  cases segment with
  | timestamp token =>
    simp only [segmentOutput]
    split_ifs at h ⊢ with hprivacy
    · exact h index token hindex
    · rw [h]
  | literal | privacy | sourceIp | destinationIp => rfl

theorem same_refreshIfStale (localTime : ℤ → Tm) (p : PreparedLog) (point : ℤ)
    (calendarTime : Bool) : Same p (p.refreshIfStale localTime point calendarTime) := by
  unfold refreshIfStale
  split_ifs
  · exact ⟨rfl, rfl, rfl, rfl⟩
  · exact ⟨rfl, rfl, rfl, rfl⟩

theorem stamped_of_no_timestamp (localTime : ℤ → Tm) {p : PreparedLog}
    (h : p.compiled.hasTimestamp = false) (point : ℤ) (calendarTime : Bool) :
    Stamped localTime p point calendarTime := by
  intro index token hindex
  rw [p.compiled.hasTimestamp_eq, List.any_eq_false] at h
  exact absurd rfl (h _ (List.mem_of_getElem? hindex))

/-- The timestamps that a rebuild reads were made for a point of the same whole second. -/
theorem refreshIfStale_made (hcached : Cached localTime randomState history p)
    (hclear : ClearCall p.compiled p.offset history call) {q : PreparedLog}
    (hq : q = { p with randomState := q.randomState }) :
    ∃ made,
      (if p.compiled.hasPrivacy then Stamped localTime
          (q.refreshIfStale localTime (pointOf p.offset call) call.calendarTime) made
          call.calendarTime
        else made = pointOf p.offset call) ∧
      wholeSecond made = wholeSecond (pointOf p.offset call) ∧
      (∃ a ∈ history ++ [call], a.calendarTime = call.calendarTime ∧ pointOf p.offset a = made) ∧
      (p.compiled.hasTimestamp = true → Made p.compiled p.offset (history ++ [call])
        (truncatedSecond (pointOf p.offset call)) call.calendarTime made) := by
  have horigin : ∃ a ∈ history ++ [call], a.calendarTime = call.calendarTime ∧
      pointOf p.offset a = pointOf p.offset call := ⟨call, by simp, rfl, rfl⟩
  have hfresh := Made.fresh p.compiled p.offset history call
  cases hprivacy : p.compiled.hasPrivacy with
  | false => exact ⟨_, by simp, rfl, horigin, fun _ => hfresh⟩
  | true =>
    simp only [↓reduceIte]
    cases htimestamp : p.compiled.hasTimestamp with
    | false =>
      refine ⟨_, ?_, rfl, horigin, fun h => by cases h⟩
      apply stamped_of_no_timestamp
      rw [(same_refreshIfStale localTime q _ _).compiled, hq]
      exact htimestamp
    | true =>
      by_cases hstale : truncatedSecond (pointOf p.offset call) ≠ p.cachedSecond ∨
          call.calendarTime ≠ p.cachedCalendarTime
      · refine ⟨_, ?_, rfl, horigin, fun _ => hfresh⟩
        have hrefresh : q.refreshIfStale localTime (pointOf p.offset call) call.calendarTime =
            q.refreshTimestamps localTime (pointOf p.offset call) call.calendarTime := by
          rw [hq, refreshIfStale]
          apply if_pos
          simpa [hprivacy, htimestamp] using hstale
        rw [hrefresh]
        intro index token hindex
        have hsegment : q.compiled.segments[index]? = some (.timestamp token) := hindex
        simp only [refreshTimestamps, hsegment]
      · have hkey : truncatedSecond (pointOf p.offset call) = p.cachedSecond ∧
            call.calendarTime = p.cachedCalendarTime := by
          simpa only [not_or, not_not] using hstale
        have hhistory : history ≠ [] := by
          intro hnil
          obtain ⟨hsecond, hcalendar⟩ := hcached.sentinel hnil
          exact (hclear htimestamp).1 hnil ⟨hkey.1.trans hsecond, hkey.2.trans hcalendar⟩
        obtain ⟨made, hmade, hstamped⟩ := hcached.stamped htimestamp hprivacy hhistory
        rw [← hkey.1, ← hkey.2] at hmade
        rw [← hkey.2] at hstamped
        have hsecond := hmade.wholeSecond_eq hclear htimestamp
        have hsame := hmade.same_key hsecond
        refine ⟨made, ?_, hsecond.symm, ?_, fun _ => hsame⟩
        · have hkeep : q.refreshIfStale localTime (pointOf p.offset call) call.calendarTime = q := by
            rw [hq, refreshIfStale]
            apply if_neg
            simp [hkey.1, hkey.2]
          rw [hkeep, hq]
          exact hstamped
        · exact hsame.origin

/-- What a refresh can change. -/
theorem refreshIfStale_frame (localTime : ℤ → Tm) (p : PreparedLog) (point : ℤ)
    (calendarTime : Bool) : ∃ timestampCache cachedSecond cachedCalendarTime,
    p.refreshIfStale localTime point calendarTime =
      { p with
        timestampCache := timestampCache
        cachedSecond := cachedSecond
        cachedCalendarTime := cachedCalendarTime } := by
  unfold refreshIfStale
  split_ifs
  · exact ⟨_, _, _, rfl⟩
  · exact ⟨_, _, _, rfl⟩

theorem cachePrivacyProfiles_of_no_privacy {compiled : CompiledLog}
    (h : compiled.hasPrivacy = false) : compiled.cachePrivacyProfiles = false := by
  rw [compiled.cachePrivacyProfiles_eq, h, Bool.false_and]

/-- A call that builds its output anew. -/
theorem rebuild_step (hcached : Cached localTime randomState history p)
    (hclear : ClearCall p.compiled p.offset history call)
    (hvaries : p.compiled.hasTimestamp = true ∨ p.compiled.hasPrivacy = true)
    {state : UInt64} (hstate : p.compiled.hasPrivacy = true →
      state = advance^[(history ++ [call]).length] randomState) :
    let r := ({ p with randomState := state } : PreparedLog).rebuild localTime
      (profileAt p.compiled randomState history.length) (pointOf p.offset call) call.calendarTime
    Same p r.2 ∧ Cached localTime randomState (history ++ [call]) r.2 ∧
      Faithful localTime p randomState history call r.1 := by
  obtain ⟨made, hstamps, hsecond, ⟨a, ha, hcalendar, hpoint⟩, hmade⟩ :=
    refreshIfStale_made hcached hclear (q := { p with randomState := state }) rfl
  obtain ⟨timestampCache, cachedSecond, cachedCalendarTime, hrefreshed⟩ := refreshIfStale_frame
    localTime { p with randomState := state } (pointOf p.offset call) call.calendarTime
  have hprofile : p.compiled.hasPrivacy = false → profileAt p.compiled randomState history.length = 0 := by
    intro hprivacy
    simp [profileAt, hprivacy]
  simp only [rebuild, hrefreshed]
  rw [hrefreshed] at hstamps
  rw [Faithful]
  generalize profileAt p.compiled randomState history.length = profile at hprofile
  have houtput : p.compiled.segments.zipIdx.flatMap
      (segmentOutput localTime
        { p with
          randomState := state
          timestampCache := timestampCache
          cachedSecond := cachedSecond
          cachedCalendarTime := cachedCalendarTime } profile (pointOf p.offset call)
        call.calendarTime) = p.plain localTime profile made call.calendarTime :=
    flatMap_segmentOutput (p := { p with
      randomState := state
      timestampCache := timestampCache
      cachedSecond := cachedSecond
      cachedCalendarTime := cachedCalendarTime }) hstamps
  rw [houtput]
  have hfaithful : ∃ b ∈ history ++ [call], b.calendarTime = call.calendarTime ∧
      wholeSecond (pointOf p.offset b) = wholeSecond (pointOf p.offset call) ∧
      p.plain localTime profile made call.calendarTime =
        p.plain localTime profile (pointOf p.offset b) call.calendarTime := by
    refine ⟨a, ha, hcalendar, ?_, ?_⟩
    · rw [hpoint]
      exact hsecond
    · rw [hpoint]
  have hne : history ++ [call] ≠ [] := by simp
  have hconstant : p.compiled.hasTimestamp = false → p.compiled.hasPrivacy = false → False := by
    intro htimestamp hprivacy
    simp [htimestamp, hprivacy] at hvaries
  have hstamped : p.compiled.hasTimestamp = true → p.compiled.hasPrivacy = true →
      ∃ point, Made p.compiled p.offset (history ++ [call]) (truncatedSecond (pointOf p.offset call))
        call.calendarTime point ∧ ∀ index token,
        p.compiled.segments[index]? = some (.timestamp token) →
          timestampCache index = timestampText localTime token point call.calendarTime := by
    intro htimestamp hprivacy
    simp only [hprivacy, ↓reduceIte] at hstamps
    exact ⟨made, hmade htimestamp, hstamps⟩
  cases hprofiles : p.compiled.cachePrivacyProfiles with
  | true =>
    have hprivacy : p.compiled.hasPrivacy = true := by
      by_contra hno
      rw [cachePrivacyProfiles_of_no_privacy (Bool.not_eq_true _ ▸ hno)] at hprofiles
      cases hprofiles
    simp only [↓reduceIte]
    refine ⟨⟨rfl, rfl, rfl, rfl⟩, ⟨hstate, fun h => absurd h hne, fun h h' => (hconstant h h').elim,
      ?_, fun h h' _ => hstamped h h', ?_⟩, hfaithful⟩
    · intro _ hno
      rw [hprivacy] at hno
      cases hno
    · intro _ other hvalid
      by_cases hother : other = profile
      · subst hother
        simp only [Function.update_self]
        exact ⟨made, rfl, hmade⟩
      · simp only [Function.update_of_ne hother] at hvalid ⊢
        obtain ⟨point, houtput, hmadeOther⟩ := hcached.entries hprofiles other hvalid
        exact ⟨point, houtput, fun h => (hmadeOther h).later hprofiles call⟩
  | false =>
    simp only [Bool.false_eq_true, ↓reduceIte]
    refine ⟨⟨rfl, rfl, rfl, rfl⟩, ⟨hstate, fun h => absurd h hne, fun h h' => (hconstant h h').elim,
      ?_, fun h h' _ => hstamped h h', ?_⟩, hfaithful⟩
    · intro htimestamp hprivacy _
      rw [hprofile hprivacy]
      exact ⟨made, hmade htimestamp, rfl⟩
    · intro hno
      rw [hprofiles] at hno
      cases hno

/-- A log without timestamps and private fields returns what it was built with. -/
theorem constant_step (call : RenderCall) (hcached : Cached localTime randomState history p)
    (htimestamp : p.compiled.hasTimestamp = false) (hprivacy : p.compiled.hasPrivacy = false) :
    Cached localTime randomState (history ++ [call]) p ∧
      Faithful localTime p randomState history call p.cached := by
  have hne : history ++ [call] ≠ [] := by simp
  constructor
  · refine ⟨fun h => ?_, fun h => absurd h hne, hcached.constant, fun h => ?_, fun h => ?_, fun h => ?_⟩
    · rw [hprivacy] at h
      cases h
    · rw [htimestamp] at h
      cases h
    · rw [htimestamp] at h
      cases h
    · rw [cachePrivacyProfiles_of_no_privacy hprivacy] at h
      cases h
  · refine ⟨call, by simp, rfl, rfl, ?_⟩
    have hprofile : profileAt p.compiled randomState history.length = 0 := by
      simp [profileAt, hprivacy]
    rw [hprofile]
    exact hcached.constant htimestamp hprivacy _ _

/-- A log without private fields, asked again for the second it has. -/
theorem whole_step (hcached : Cached localTime randomState history p)
    (hclear : ClearCall p.compiled p.offset history call)
    (htimestamp : p.compiled.hasTimestamp = true) (hprivacy : p.compiled.hasPrivacy = false)
    (hsecond : truncatedSecond (pointOf p.offset call) = p.cachedSecond)
    (hcalendar : call.calendarTime = p.cachedCalendarTime) :
    Cached localTime randomState (history ++ [call]) p ∧
      Faithful localTime p randomState history call p.cached := by
  have hne : history ++ [call] ≠ [] := by simp
  have hhistory : history ≠ [] := by
    intro hnil
    obtain ⟨hsentinel, hcalendar'⟩ := hcached.sentinel hnil
    exact (hclear htimestamp).1 hnil ⟨hsecond.trans hsentinel, hcalendar.trans hcalendar'⟩
  obtain ⟨point, hmade, houtput⟩ := hcached.whole htimestamp hprivacy hhistory
  rw [← hsecond, ← hcalendar] at hmade
  have hwhole := hmade.wholeSecond_eq hclear htimestamp
  have hsame := hmade.same_key hwhole
  constructor
  · refine ⟨fun h => ?_, fun h => absurd h hne, fun h => ?_, fun _ _ _ => ?_, fun _ h => ?_,
      fun h => ?_⟩
    · rw [hprivacy] at h
      cases h
    · rw [htimestamp] at h
      cases h
    · rw [← hsecond, ← hcalendar]
      exact ⟨point, hsame, hcalendar ▸ houtput⟩
    · rw [hprivacy] at h
      cases h
    · rw [cachePrivacyProfiles_of_no_privacy hprivacy] at h
      cases h
  · obtain ⟨a, ha, hcalendar', hpoint⟩ := hsame.origin
    have hprofile : profileAt p.compiled randomState history.length = 0 := by
      simp [profileAt, hprivacy]
    refine ⟨a, ha, hcalendar', ?_, ?_⟩
    · rw [hpoint]
      exact hwhole.symm
    · rw [hpoint, hprofile, hcalendar]
      exact houtput

/-- The entry of the drawn profile holds the second asked for. -/
theorem entry_step (hcached : Cached localTime randomState history p)
    (hclear : ClearCall p.compiled p.offset history call)
    (hprofiles : p.compiled.cachePrivacyProfiles = true) {state : UInt64}
    (hstate : state = advance^[(history ++ [call]).length] randomState)
    (hvalid : (p.privacyCache (profileAt p.compiled randomState history.length)).valid = true)
    (hkey : p.compiled.hasTimestamp = true →
      (p.privacyCache (profileAt p.compiled randomState history.length)).second =
          truncatedSecond (pointOf p.offset call) ∧
        (p.privacyCache (profileAt p.compiled randomState history.length)).calendarTime =
          call.calendarTime) :
    Cached localTime randomState (history ++ [call]) { p with randomState := state } ∧
      Faithful localTime p randomState history call
        (p.privacyCache (profileAt p.compiled randomState history.length)).output := by
  rw [Faithful]
  generalize profileAt p.compiled randomState history.length = profile at hvalid hkey ⊢
  have hne : history ++ [call] ≠ [] := by simp
  have hprivacy : p.compiled.hasPrivacy = true := by
    by_contra hno
    rw [cachePrivacyProfiles_of_no_privacy (Bool.not_eq_true _ ▸ hno)] at hprofiles
    cases hprofiles
  obtain ⟨point, houtput, hmade⟩ := hcached.entries hprofiles profile hvalid
  constructor
  · refine ⟨fun _ => hstate, fun h => absurd h hne, fun _ h => ?_, fun _ h => ?_, fun h _ _ => ?_,
      fun _ other hother => ?_⟩
    · rw [hprivacy] at h
      cases h
    · rw [hprivacy] at h
      cases h
    · obtain ⟨a, ha, _, _⟩ := (hmade h).origin
      obtain ⟨stamp, hstamp, hstamped⟩ := hcached.stamped h hprivacy (List.ne_nil_of_mem ha)
      exact ⟨stamp, hstamp.later hprofiles call, hstamped⟩
    · obtain ⟨earlier, hearlier, hmadeOther⟩ := hcached.entries hprofiles other hother
      exact ⟨earlier, hearlier, fun h => (hmadeOther h).later hprofiles call⟩
  · cases htimestamp : p.compiled.hasTimestamp with
    | true =>
      obtain ⟨hsecond, hcalendar⟩ := hkey htimestamp
      have hfound := hmade htimestamp
      rw [hsecond, hcalendar] at hfound
      obtain ⟨a, ha, hcalendar', hpoint⟩ := hfound.origin
      refine ⟨a, List.mem_append_left _ ha, hcalendar', ?_, ?_⟩
      · rw [hpoint]
        exact (hfound.wholeSecond_eq hclear htimestamp).symm
      · rw [houtput, hpoint, hcalendar]
    | false =>
      refine ⟨call, by simp, rfl, rfl, ?_⟩
      rw [houtput]
      exact plain_congr localTime htimestamp _ _ _ _ _

/-- The test that `render` makes of the entry of the drawn profile. -/
theorem entry_test {p : PreparedLog} {entry : PrivacyEntry} {second : ℤ} {calendarTime : Bool} :
    (p.compiled.cachePrivacyProfiles && entry.valid && (!p.compiled.hasTimestamp ||
        (entry.second == second && entry.calendarTime == calendarTime))) = true ↔
      p.compiled.cachePrivacyProfiles = true ∧ entry.valid = true ∧
        (p.compiled.hasTimestamp = true →
          entry.second = second ∧ entry.calendarTime = calendarTime) := by
  cases htimestamp : p.compiled.hasTimestamp
  · simp
  · simp [and_assoc]

theorem render_public (localTime : ℤ → Tm) {p : PreparedLog} (hprivacy : p.compiled.hasPrivacy = false)
    (htimestamp : p.compiled.hasTimestamp = true) (now : ℤ) (calendarTime : Bool) :
    p.render localTime now calendarTime =
      if truncatedSecond (p.adjusted now) = p.cachedSecond ∧ calendarTime = p.cachedCalendarTime then
        (p.cached, p)
      else p.rebuild localTime 0 (p.adjusted now) calendarTime := by
  have hprofiles := cachePrivacyProfiles_of_no_privacy hprivacy
  simp [render, hprivacy, htimestamp, hprofiles]

theorem render_private (localTime : ℤ → Tm) {p : PreparedLog} (hprivacy : p.compiled.hasPrivacy = true)
    (now : ℤ) (calendarTime : Bool) :
    p.render localTime now calendarTime =
      if p.compiled.cachePrivacyProfiles = true ∧
          (p.privacyCache (profileOf (advance p.randomState))).valid = true ∧
          (p.compiled.hasTimestamp = true →
            (p.privacyCache (profileOf (advance p.randomState))).second =
                truncatedSecond (p.adjusted now) ∧
              (p.privacyCache (profileOf (advance p.randomState))).calendarTime = calendarTime) then
        ((p.privacyCache (profileOf (advance p.randomState))).output,
          { p with randomState := advance p.randomState })
      else
        { p with randomState := advance p.randomState }.rebuild localTime
          (profileOf (advance p.randomState)) (p.adjusted now) calendarTime := by
  simp only [← entry_test]
  simp [render, hprivacy]

/-- One call of `render`. -/
theorem render_step (hcached : Cached localTime randomState history p)
    (hclear : ClearCall p.compiled p.offset history call) :
    Same p (p.render localTime call.now call.calendarTime).2 ∧
      Cached localTime randomState (history ++ [call])
        (p.render localTime call.now call.calendarTime).2 ∧
      Faithful localTime p randomState history call
        (p.render localTime call.now call.calendarTime).1 := by
  have hlength : (history ++ [call]).length = history.length + 1 := by simp
  have hpoint : p.adjusted call.now = pointOf p.offset call := rfl
  cases hprivacy : p.compiled.hasPrivacy with
  | false =>
    cases htimestamp : p.compiled.hasTimestamp with
    | false =>
      have hrender : p.render localTime call.now call.calendarTime = (p.cached, p) := by
        simp [render, hprivacy, htimestamp]
      obtain ⟨hcached', hfaithful⟩ := constant_step call hcached htimestamp hprivacy
      rw [hrender]
      exact ⟨⟨rfl, rfl, rfl, rfl⟩, hcached', hfaithful⟩
    | true =>
      rw [render_public localTime hprivacy htimestamp, hpoint]
      split_ifs with hkey
      · obtain ⟨hcached', hfaithful⟩ :=
          whole_step hcached hclear htimestamp hprivacy hkey.1 hkey.2
        exact ⟨⟨rfl, rfl, rfl, rfl⟩, hcached', hfaithful⟩
      · have hprofile : profileAt p.compiled randomState history.length = 0 := by
          simp [profileAt, hprivacy]
        have hstate : p.compiled.hasPrivacy = true →
            p.randomState = advance^[(history ++ [call]).length] randomState := by
          intro h
          rw [hprivacy] at h
          cases h
        rw [← hprofile]
        exact rebuild_step hcached hclear (.inl htimestamp) hstate
  | true =>
    have hstate : advance p.randomState = advance^[(history ++ [call]).length] randomState := by
      rw [hlength, hcached.randomState hprivacy, Function.iterate_succ_apply']
    have hprofile : profileOf (advance p.randomState) =
        profileAt p.compiled randomState history.length := by
      rw [profileAt, if_pos hprivacy, hstate, hlength]
    rw [render_private localTime hprivacy, hpoint, hprofile]
    split_ifs with hentry
    · obtain ⟨hprofiles, hvalid, hkey⟩ := hentry
      obtain ⟨hcached', hfaithful⟩ := entry_step hcached hclear hprofiles hstate hvalid hkey
      exact ⟨⟨rfl, rfl, rfl, rfl⟩, hcached', hfaithful⟩
    · exact rebuild_step hcached hclear (.inr hprivacy) fun _ => hstate

theorem plain_of_same {p q : PreparedLog} (h : Same p q) (localTime : ℤ → Tm)
    (profile : ProfileIndex) (point : ℤ) (calendarTime : Bool) :
    q.plain localTime profile point calendarTime = p.plain localTime profile point calendarTime := by
  rw [plain, plain, h.compiled, h.sourceIp, h.destinationIp]

theorem Faithful.of_same {p q : PreparedLog} (h : Same p q) {output : Bytes}
    (hfaithful : Faithful localTime q randomState history call output) :
    Faithful localTime p randomState history call output := by
  obtain ⟨a, ha, hcalendar, hsecond, houtput⟩ := hfaithful
  rw [h.offset] at hsecond
  rw [plain_of_same h, h.compiled, h.offset] at houtput
  exact ⟨a, ha, hcalendar, hsecond, houtput⟩

/-- All calls after `history`. -/
theorem renderAll_faithful (calls : List RenderCall) :
    ∀ {history : List RenderCall} {p : PreparedLog}, Cached localTime randomState history p →
      (∀ i (h : i < calls.length),
        ClearCall p.compiled p.offset (history ++ calls.take i) calls[i]) →
      (renderAll localTime calls p).1.length = calls.length ∧
        ∀ i (h : i < calls.length) (h' : i < (renderAll localTime calls p).1.length),
          Faithful localTime p randomState (history ++ calls.take i) calls[i]
            (renderAll localTime calls p).1[i] := by
  induction calls with
  | nil =>
    intro history p _ _
    refine ⟨rfl, fun i h => ?_⟩
    simp at h
  | cons call calls ih =>
    intro history p hcached hclear
    have hfirst : ClearCall p.compiled p.offset history call := by
      have hzero := hclear 0 (Nat.succ_pos _)
      rw [List.take_zero, List.append_nil] at hzero
      exact hzero
    obtain ⟨hsame, hnext, hfaithful⟩ := render_step hcached hfirst
    have hrest : ∀ i (h : i < calls.length), ClearCall
        (p.render localTime call.now call.calendarTime).2.compiled
        (p.render localTime call.now call.calendarTime).2.offset
        (history ++ [call] ++ calls.take i) calls[i] := by
      intro i h
      rw [hsame.compiled, hsame.offset, List.append_assoc]
      exact hclear (i + 1) (Nat.succ_lt_succ h)
    obtain ⟨hlength, houtputs⟩ := ih hnext hrest
    constructor
    · simpa [renderAll] using hlength
    · intro i h h'
      cases i with
      | zero => simpa [renderAll] using hfaithful
      | succ i =>
        have hi : i < calls.length := by simpa using h
        have houtput := (houtputs i hi (by rw [hlength]; exact hi)).of_same hsame
        simpa [renderAll] using houtput

end PreparedLog

/-- Every call returns what the plain text is for the profile drawn at this call, with the
timestamps of a point of the same whole second and flag, asked for by this or an earlier call. -/
def CachesInvisible (localTime : ℤ → Tm) (compiled : CompiledLog) (sourceIp destinationIp : Bytes)
    (offset : ℤ) (randomState : UInt64) (calls : List RenderCall) : Prop :=
  let outputs := (renderAll localTime calls
    (PreparedLog.bind compiled sourceIp destinationIp offset randomState)).1
  outputs.length = calls.length ∧
    ∀ i (h : i < calls.length), ∃ j, ∃ hj : j ≤ i,
      calls[j].calendarTime = calls[i].calendarTime ∧
      wholeSecond (pointOf offset calls[j]) = wholeSecond (pointOf offset calls[i]) ∧
      outputs[i]? = some (plainText localTime compiled sourceIp destinationIp
        (profileAt compiled randomState i) (pointOf offset calls[j]) calls[i].calendarTime)

theorem renderAll_cachesInvisible (localTime : ℤ → Tm) (compiled : CompiledLog)
    (sourceIp destinationIp : Bytes) (offset : ℤ) (randomState : UInt64) (calls : List RenderCall)
    (hclear : ClearCalls compiled offset calls) :
    CachesInvisible localTime compiled sourceIp destinationIp offset randomState calls := by
  obtain ⟨hlength, hfaithful⟩ := PreparedLog.renderAll_faithful calls
    (PreparedLog.cached_bind localTime compiled sourceIp destinationIp offset randomState) hclear
  refine ⟨hlength, fun i hi => ?_⟩
  obtain ⟨a, ha, hcalendar, hsecond, houtput⟩ := hfaithful i hi (by rw [hlength]; exact hi)
  have hmem : a ∈ calls.take (i + 1) := by
    rw [List.take_succ_eq_append_getElem hi]
    exact ha
  obtain ⟨j, hj, rfl⟩ := List.getElem_of_mem hmem
  have hji : j ≤ i := by
    rw [List.length_take] at hj
    omega
  rw [List.getElem_take] at hcalendar hsecond houtput
  refine ⟨j, hji, hcalendar, hsecond, ?_⟩
  have hbefore : (calls.take i).length = i := by simp [hi.le]
  rw [List.getElem?_eq_getElem (by rw [hlength]; exact hi), houtput, List.nil_append, hbefore]
  rfl

/-- From the epoch on truncation and rounding down agree, and no call has the initial key. -/
theorem clearCalls_of_nonneg (compiled : CompiledLog) {offset : ℤ} {calls : List RenderCall}
    (h : ∀ call ∈ calls, 0 ≤ pointOf offset call) : ClearCalls compiled offset calls := by
  have hwhole : ∀ call ∈ calls, PreparedLog.truncatedSecond (pointOf offset call) =
      wholeSecond (pointOf offset call) := by
    intro call hcall
    exact Int.tdiv_eq_ediv_of_nonneg (h call hcall)
  intro i hi _
  have hmem : calls[i] ∈ calls := List.getElem_mem hi
  constructor
  · rintro _ ⟨hsentinel, _⟩
    rw [hwhole _ hmem] at hsentinel
    have hpos : 0 ≤ wholeSecond (pointOf offset calls[i]) :=
      Int.ediv_nonneg (h _ hmem) (by decide)
    omega
  · rintro earlier hearlier _ ⟨_, htruncated, hne⟩
    have hmem' : earlier ∈ calls := List.mem_of_mem_take hearlier
    rw [hwhole _ hmem, hwhole _ hmem'] at htruncated
    exact hne htruncated

theorem renderAll_cachesInvisible_example :
    ClearCalls (makeCompiledLog [.timestamp {}, .privacy .email]) 0
        [⟨0, false⟩, ⟨5, true⟩, ⟨0, true⟩] ∧
      CachesInvisible (fun _ => {}) (makeCompiledLog [.timestamp {}, .privacy .email]) [] [] 0 1
        [⟨0, false⟩, ⟨5, true⟩, ⟨0, true⟩] := by
  have hclear : ClearCalls (makeCompiledLog [.timestamp {}, .privacy .email]) 0
      [⟨0, false⟩, ⟨5, true⟩, ⟨0, true⟩] := clearCalls_of_nonneg _ (by decide)
  exact ⟨hclear, renderAll_cachesInvisible _ _ _ _ _ _ _ hclear⟩

/-- A timestamp of zone `Z` and nothing else. -/
def zuluLog : CompiledLog := makeCompiledLog [.timestamp { zoneSuffix := bytes "Z" }]

/-- One second before the epoch the first call finds the initial key and returns no text; half a
second after the epoch a call gets the text of half a second before it. -/
theorem not_cachesInvisible :
    ¬ CachesInvisible (fun _ => {}) zuluLog [] [] 0 1 [⟨-1000000000, false⟩] ∧
      ¬ CachesInvisible (fun _ => {}) zuluLog [] [] 0 1
        [⟨-500000000, false⟩, ⟨500000000, false⟩] := by
  constructor
  · rintro ⟨_, hinvisible⟩
    obtain ⟨j, hj, _, _, houtput⟩ := hinvisible 0 (by decide)
    obtain rfl : j = 0 := Nat.le_zero.mp hj
    have hempty : (renderAll (fun _ => {}) [⟨-1000000000, false⟩]
        (PreparedLog.bind zuluLog [] [] 0 1)).1[0]? ≠
        some (plainText (fun _ => {}) zuluLog [] [] (profileAt zuluLog 1 0) (-1000000000) false) := by
      decide
    exact hempty houtput
  · rintro ⟨_, hinvisible⟩
    obtain ⟨j, hj, _, hsecond, houtput⟩ := hinvisible 1 (by decide)
    obtain rfl | rfl : j = 0 ∨ j = 1 := by omega
    · have hdifferent : wholeSecond (pointOf 0 ⟨-500000000, false⟩) ≠
          wholeSecond (pointOf 0 ⟨500000000, false⟩) := by decide
      exact hdifferent hsecond
    · have hstale : (renderAll (fun _ => {}) [⟨-500000000, false⟩, ⟨500000000, false⟩]
          (PreparedLog.bind zuluLog [] [] 0 1)).1[1]? ≠
          some (plainText (fun _ => {}) zuluLog [] [] (profileAt zuluLog 1 1) 500000000 false) := by
        decide
      exact hstale houtput

end Application
end LogGenerator
