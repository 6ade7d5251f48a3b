import LogGenerator.Application.PrivacyAnonymizer

/-!
# Timestamps in a template

The patterns that recognise a timestamp, the token a recognised text becomes, and
the marker that keeps both in a tokenized template.
-/

namespace LogGenerator
namespace Application

open Ascii Regex

inductive TimestampStyle where
  | iso8601 | yearFirst | syslogWithYear | syslogWithoutYear | monthFirstGmt | apache | compact
  | compactWithT | compactDate | compactYearMonth | compactTime | yearFirstMinute
  | monthDayYear | dateOnly | yearMonth | timeOnly
  deriving DecidableEq, Repr

structure TimestampToken where
  style : TimestampStyle := .iso8601
  dateSeparator : UInt8 := 45
  dateTimeSeparator : UInt8 := 84
  fractionalDigits : ℕ := 0
  hourWidth : ℕ := 2
  zoneOffsetMinutes : ℤ := 0
  hasWeekday : Bool := false
  zoneSuffix : Bytes := []
  deriving DecidableEq, Repr

def weekdays : List Bytes := ["Sun", "Mon", "Tue", "Wed", "Thu", "Fri", "Sat"].map bytes

/-- The value of a signed `char`. -/
def charValue (b : UInt8) : ℤ := if b < 128 then b.toNat else (b.toNat : ℤ) - 256

def parseZoneOffset (suffix : Bytes) : ℤ :=
  if suffix.length < 5 ∨ ¬ suffix.head?.any (fun b => b == 43 || b == 45) then 0
  else
    let value (i : ℕ) : ℤ := charValue (suffix.getD i 0) - 48
    let hours := value 1 * 10 + value 2
    let minuteIndex := if suffix.length = 6 then 4 else 3
    let minutes := value minuteIndex * 10 + value (minuteIndex + 1)
    let total := hours * 60 + minutes
    if suffix.head? = some 45 then -total else total

/-- The fraction that begins at the dot at `dot`, at most nine digits of it. -/
def fractionalDigitsAt (value : Bytes) (dot : ℕ) : ℕ :=
  min 9 ((value.drop (dot + 1)).takeWhile isDigit).length

def TimestampToken.withZone (token : TimestampToken) (value : Bytes) (zonePosition : Option ℕ) :
    TimestampToken :=
  match zonePosition with
  | none => token
  | some position =>
    { token with
      zoneSuffix := value.drop position
      zoneOffsetMinutes := parseZoneOffset (value.drop position) }

def TimestampToken.withFraction (token : TimestampToken) (value : Bytes) (dot : Option ℕ) :
    TimestampToken :=
  match dot with
  | none => token
  | some dot => { token with fractionalDigits := fractionalDigitsAt value dot }

def makeToken (style : TimestampStyle) (value : Bytes) : TimestampToken :=
  let token : TimestampToken :=
    { style := style
      hasWeekday := 4 < value.length && value[3]? == some space && weekdays.contains (value.take 3) }
  let dateSeparator := value.getD 4 45
  match style with
  | .iso8601 =>
    ({ token with
      dateSeparator := dateSeparator
      dateTimeSeparator := value.getD 10 84
      hourWidth := if value[12]? = some 58 then 1 else 2 }.withFraction value
        (find value (bytes ".") 11)).withZone value (findFirstOf value (bytes "Z+-") 11)
  | .compactWithT =>
    (token.withFraction value (find value (bytes ".") 0)).withZone value
      (findFirstOf value (bytes "Z+-") 15)
  | .apache => token.withZone value (findLastOf value (bytes "+-"))
  | .monthFirstGmt => { token with zoneSuffix := bytes "GMT" }
  | .monthDayYear =>
    match findLastOf value [space] with
    | none => token
    | some zonePosition =>
      let suffix := value.drop (zonePosition + 1)
      if suffix = bytes "GMT" ∨ suffix = bytes "UTC" then { token with zoneSuffix := suffix }
      else token
  | .dateOnly | .yearMonth => { token with dateSeparator := dateSeparator }
  | .yearFirstMinute =>
    { token with
      dateSeparator := dateSeparator
      dateTimeSeparator := value.getD 10 space
      hourWidth := if value[12]? = some 58 then 1 else 2 }
  | .timeOnly =>
    { token with
      hourWidth := if value[1]? = some 58 then 1 else 2
      fractionalDigits := match find value (bytes ".") 0 with
        | none => 0
        | some dot => min 9 (value.length - dot - 1) }
  | .yearFirst | .syslogWithYear | .syslogWithoutYear | .compact | .compactDate
  | .compactYearMonth | .compactTime => token

def timestampMarkerPrefix : Bytes := bytes "\x7b\x7bTIMESTAMP:"

def timestampMarkerSuffix : Bytes := bytes "\x7d\x7d"

def timestampStyleKeys : List (TimestampStyle × String) :=
  [(.iso8601, "ISO8601"), (.yearFirst, "YEAR_FIRST"), (.syslogWithYear, "SYSLOG_YEAR"),
    (.syslogWithoutYear, "SYSLOG"), (.monthFirstGmt, "MONTH_FIRST_GMT"), (.apache, "APACHE"),
    (.compact, "COMPACT"), (.compactWithT, "COMPACT_T"), (.compactDate, "COMPACT_DATE"),
    (.compactYearMonth, "COMPACT_MONTH"), (.compactTime, "COMPACT_TIME"),
    (.yearFirstMinute, "YEAR_FIRST_MINUTE"), (.monthDayYear, "MONTH_DAY_YEAR"),
    (.dateOnly, "DATE"), (.yearMonth, "YEAR_MONTH"), (.timeOnly, "TIME")]

def timestampStyleKey (style : TimestampStyle) : Bytes :=
  match timestampStyleKeys.find? fun entry => entry.1 == style with
  | some entry => bytes entry.2
  | none => bytes "UNKNOWN"

def timestampStyleFromKey (key : Bytes) : Option TimestampStyle :=
  (timestampStyleKeys.find? fun entry => bytes entry.2 == key).map (·.1)

theorem timestampStyleFromKey_key (style : TimestampStyle) :
    timestampStyleFromKey (timestampStyleKey style) = some style := by
  cases style
  all_goals decide

structure TimestampPattern where
  expression : Regex
  style : TimestampStyle
  priority : ℤ
  captureGroup : ℕ

namespace TimestampPattern

def year : Regex := .seq (.alt (lit "19") (lit "20")) (times numeral 2)

def month : Regex := .alt (.seq (lit "0") (range '1' '9')) (.seq (lit "1") (range '0' '2'))

def day : Regex :=
  alts [.seq (lit "0") (range '1' '9'), .seq (oneOf "12") numeral, .seq (lit "3") (oneOf "01")]

def hour : Regex := .alt (.seq (opt (oneOf "01")) numeral) (.seq (lit "2") (range '0' '3'))

def sixty : Regex := .seq (range '0' '5') numeral

def fraction : Regex := opt (.seq (lit ".") (between numeral 1 9))

def zone : Regex :=
  opt (.alt (lit "Z") (seqs [oneOf "+-", times numeral 2, opt (lit ":"), times numeral 2]))

/-- `[A-Z][a-z]{2}`. -/
def nameOfThree : Regex := .seq (range 'A' 'Z') (times (range 'a' 'z') 2)

def separatedDate : Regex := seqs [year, oneOf "-/", month, oneOf "-/", day]

/-- `\d{2}:\d{2}:\d{2}`. -/
def clock : Regex :=
  seqs [times numeral 2, lit ":", times numeral 2, lit ":", times numeral 2]

/-- An optional weekday, a month name and a day of the month. -/
def monthDay : Regex :=
  seqs [opt (.seq nameOfThree (plus whitespace)), nameOfThree, plus whitespace,
    between numeral 1 2]

/-- `(^|[^0-9])` and the timestamp as group 2. -/
def afterNonDigit (timestamp follow : Regex) : Regex :=
  seqs [.group 1 (.alt .begin (.set fun b => !isDigit b)), .group 2 timestamp, follow]

/-- What separates a field name from its value: `["']?\s*[:=]\s*["']?`. -/
def assigned : Regex :=
  seqs [opt (oneOf "\"'"), star whitespace, oneOf ":=", star whitespace, opt (oneOf "\"'")]

end TimestampPattern

open TimestampPattern in
def timestampPatterns : List TimestampPattern :=
  [⟨seqs [.boundary, separatedDate, oneOf "T ", hour, lit ":", sixty, lit ":", sixty, fraction,
      zone], .iso8601, 0, 0⟩,
    ⟨afterNonDigit (seqs [year, month, day, lit "T", times numeral 6, fraction, zone])
      (.ahead true numeral), .compactWithT, 1, 2⟩,
    ⟨seqs [.boundary, monthDay, plus whitespace, times numeral 4, plus whitespace, clock,
      opt (.seq (plus whitespace) (.alt (lit "GMT") (lit "UTC"))), .boundary],
      .monthDayYear, 2, 0⟩,
    ⟨seqs [.boundary, monthDay, plus whitespace, clock, plus whitespace, times numeral 4,
      .boundary], .syslogWithYear, 3, 0⟩,
    ⟨seqs [.boundary, between numeral 1 2, lit "/", nameOfThree, lit "/", times numeral 4, lit ":",
      clock, plus whitespace, oneOf "+-", times numeral 4, .boundary], .apache, 4, 0⟩,
    ⟨seqs [.boundary, monthDay, plus whitespace, clock, .boundary], .syslogWithoutYear, 5, 0⟩,
    ⟨afterNonDigit (seqs [year, month, day, times numeral 6]) (.ahead true numeral),
      .compact, 6, 2⟩,
    ⟨seqs [.boundary, separatedDate, oneOf " T", hour, lit ":", sixty, .ahead true (lit ":")],
      .yearFirstMinute, 7, 0⟩,
    ⟨afterNonDigit (seqs [year, month, day]) (.ahead true numeral), .compactDate, 8, 2⟩,
    ⟨afterNonDigit (seqs [year, month]) (.ahead false (lit "_")), .compactYearMonth, 9, 2⟩,
    ⟨.icase (seqs
      [.group 1 (seqs
        [.boundary, .alt (lit "time") (.seq (star (.set isWord)) (lit "hms")), assigned]),
      .group 2 (times numeral 6), .ahead true numeral]), .compactTime, 10, 2⟩,
    ⟨seqs [.boundary, separatedDate, .boundary], .dateOnly, 11, 0⟩,
    ⟨seqs [.boundary, year, oneOf "-/", month, .boundary], .yearMonth, 12, 0⟩,
    ⟨.icase (seqs
      [.group 1 (seqs [.boundary, lit "time", assigned]),
      .group 2 (seqs [hour, lit ":", sixty, lit ":", sixty, fraction])]), .timeOnly, 13, 2⟩,
    ⟨seqs [.alt .begin (lit "\x60"),
      .group 1 (seqs [.alt (.seq (oneOf "01") numeral) (.seq (lit "2") (range '0' '3')), lit ":",
        sixty, lit ":", sixty, fraction]), .ahead false (lit "\x60")], .timeOnly, 14, 1⟩]

inductive RenderSegment where
  | literal (text : Bytes)
  | timestamp (token : TimestampToken)
  | privacy (kind : PrivacyTokenKind)
  | sourceIp
  | destinationIp
  deriving DecidableEq, Repr

structure MatchCandidate where
  position : ℕ
  length : ℕ
  priority : ℤ
  segment : RenderSegment

/-- The order of `std::ranges::sort` in `timestamp_candidates` and `compile_segments`. -/
def MatchCandidate.Before (left right : MatchCandidate) : Prop :=
  if left.position ≠ right.position then left.position < right.position
  else if left.length ≠ right.length then right.length < left.length
  else left.priority ≤ right.priority

instance : DecidableRel MatchCandidate.Before := fun left right => by
  unfold MatchCandidate.Before
  infer_instance

def sortCandidates (candidates : List MatchCandidate) : List MatchCandidate :=
  candidates.insertionSort MatchCandidate.Before

def timestampCandidate (position length : ℕ) (priority : ℤ) (style : TimestampStyle)
    (value : Bytes) : MatchCandidate :=
  ⟨position, length, priority, .timestamp (makeToken style value)⟩

/-- The timestamps already tokenized, from `position` on. -/
def markerCandidates (input : Bytes) : ℕ → ℕ → List MatchCandidate
  | 0, _ => []
  | fuel + 1, position =>
    match find input timestampMarkerPrefix position with
    | none => []
    | some marker =>
      let keyBegin := marker + timestampMarkerPrefix.length
      let markerEnd := do
        let separator ← find input (bytes ":") keyBegin
        let suffix ← find input timestampMarkerSuffix (separator + 1)
        return (separator, suffix)
      match markerEnd with
      | none => markerCandidates input fuel keyBegin
      | some (separator, suffix) =>
        let finish := suffix + timestampMarkerSuffix.length
        match timestampStyleFromKey (slice input (keyBegin, separator)) with
        | none => markerCandidates input fuel finish
        | some style =>
          timestampCandidate marker (finish - marker) (-100) style
            (slice input (separator + 1, suffix)) :: markerCandidates input fuel finish

def patternCandidates (input : Bytes) (pattern : TimestampPattern) : List MatchCandidate :=
  (pattern.expression.allMatches input).filterMap fun m =>
    (m.group? pattern.captureGroup).map fun bounds =>
      timestampCandidate bounds.1 (bounds.2 - bounds.1) pattern.priority pattern.style
        (slice input bounds)

def timestampCandidates (input : Bytes) : List MatchCandidate :=
  sortCandidates (markerCandidates input (input.length + 1) 0 ++
    timestampPatterns.flatMap (patternCandidates input))

/-- The text `tokenize_timestamps` puts in place of a candidate. -/
def timestampEdit (input : Bytes) (candidate : MatchCandidate) : Edit :=
  let finish := candidate.position + candidate.length
  let original := slice input (candidate.position, finish)
  ⟨candidate.position, finish,
    match candidate.segment with
    | .timestamp token =>
      if timestampMarkerPrefix.isPrefixOf original then original
      else
        timestampMarkerPrefix ++ timestampStyleKey token.style ++ bytes ":" ++ original ++
          timestampMarkerSuffix
    | _ => original⟩

def tokenizeTimestamps (input : Bytes) : Bytes :=
  splice input ((timestampCandidates input).map (timestampEdit input))

end Application
end LogGenerator
