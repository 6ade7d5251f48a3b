import LogGenerator.Application.TimestampToken

/-!
# Writing timestamps

`append_timestamp` and the calendar conversions under it. Time points are in
nanoseconds since the epoch; `localTime` stands for `std::localtime`.
-/

namespace LogGenerator
namespace Application

open Ascii

def nanosecondsPerSecond : ℤ := 1000000000

/-- `std::chrono::year_month_day` of a day count since the epoch, as year, month and day. -/
def civilFromDays (days : ℤ) : ℤ × ℤ × ℤ :=
  -- Years begin in March here, so that a leap day is the last day of its year.
  let shifted := days + 719468
  let era := shifted / 146097
  let dayOfEra := shifted % 146097
  let yearOfEra := (dayOfEra - dayOfEra / 1460 + dayOfEra / 36524 - dayOfEra / 146096) / 365
  let dayOfYear := dayOfEra - (365 * yearOfEra + yearOfEra / 4 - yearOfEra / 100)
  let monthFromMarch := (5 * dayOfYear + 2) / 153
  let month := if monthFromMarch < 10 then monthFromMarch + 3 else monthFromMarch - 9
  let year := yearOfEra + era * 400 + if month ≤ 2 then 1 else 0
  (year, month, dayOfYear - (153 * monthFromMarch + 2) / 5 + 1)

def convertUtcTime (point : ℤ) : Tm :=
  let seconds := point / nanosecondsPerSecond
  let days := seconds / 86400
  let time := seconds % 86400
  let (year, month, day) := civilFromDays days
  { year := year - 1900
    mon := month - 1
    mday := day
    hour := time / 3600
    min := time % 3600 / 60
    sec := time % 60
    wday := (days + 4) % 7 }

example : convertUtcTime (1709210096 * nanosecondsPerSecond) =
    { year := 124, mon := 1, mday := 29, hour := 12, min := 34, sec := 56, wday := 4 } := by decide

/-- `std::chrono::system_clock::to_time_t`, which truncates. -/
def toTimeT (point : ℤ) : ℤ := point.tdiv nanosecondsPerSecond

def makeTime (localTime : ℤ → Tm) (point : ℤ) (token : TimestampToken) (calendarTime : Bool) : Tm :=
  if calendarTime then convertUtcTime point
  else if token.zoneSuffix ≠ [] then
    convertUtcTime (point + token.zoneOffsetMinutes * 60 * nanosecondsPerSecond)
  else localTime (toTimeT point)

/-- A C string that `snprintf` has left in a buffer of `size` bytes. -/
def snprintf (size : ℕ) (text : Bytes) : Bytes := (text.takeWhile (· ≠ 0)).take (size - 1)

def fractionText (point : ℤ) (digits : ℕ) : Bytes :=
  if digits = 0 then []
  else (bytes "." ++ zeroPadded 9 (point % nanosecondsPerSecond)).take (digits + 1)

def months : List Bytes :=
  ["Jan", "Feb", "Mar", "Apr", "May", "Jun", "Jul", "Aug", "Sep", "Oct", "Nov", "Dec"].map bytes

def monthName (value : Tm) : Bytes := months.getD value.mon.toNat []

def hourText (token : TimestampToken) (value : Tm) : Bytes :=
  if token.hourWidth = 1 then zeroPadded 1 value.hour else zeroPadded 2 value.hour

def yearText (value : Tm) : Bytes := zeroPadded 4 (value.year + 1900)

def dateText (token : TimestampToken) (value : Tm) : Bytes :=
  yearText value ++ [token.dateSeparator] ++ zeroPadded 2 (value.mon + 1) ++
    [token.dateSeparator] ++ zeroPadded 2 value.mday

def minuteSecond (value : Tm) : Bytes :=
  bytes ":" ++ zeroPadded 2 value.min ++ bytes ":" ++ zeroPadded 2 value.sec

def clockText (value : Tm) : Bytes := zeroPadded 2 value.hour ++ minuteSecond value

def compactDateText (value : Tm) : Bytes :=
  yearText value ++ zeroPadded 2 (value.mon + 1) ++ zeroPadded 2 value.mday

def compactClockText (value : Tm) : Bytes :=
  zeroPadded 2 value.hour ++ zeroPadded 2 value.min ++ zeroPadded 2 value.sec

def monthDayText (value : Tm) : Bytes := monthName value ++ bytes " " ++ zeroPadded 2 value.mday

/-- What `append_timestamp` formats into its buffer. -/
def bufferText (token : TimestampToken) (value : Tm) : Bytes :=
  match token.style with
  | .iso8601 | .yearFirst =>
    dateText token value ++ [token.dateTimeSeparator] ++ hourText token value ++ minuteSecond value
  | .syslogWithYear =>
    monthDayText value ++ bytes " " ++ clockText value ++ bytes " " ++ yearText value
  | .syslogWithoutYear => monthDayText value ++ bytes " " ++ clockText value
  | .monthFirstGmt =>
    monthDayText value ++ bytes " " ++ yearText value ++ bytes " " ++ clockText value ++
      bytes " GMT"
  | .apache =>
    zeroPadded 2 value.mday ++ bytes "/" ++ monthName value ++ bytes "/" ++ yearText value ++
      bytes ":" ++ clockText value ++ bytes " " ++ token.zoneSuffix
  | .compact => compactDateText value ++ compactClockText value
  | .compactWithT => compactDateText value ++ bytes "T" ++ compactClockText value
  | .compactDate => compactDateText value
  | .compactYearMonth => yearText value ++ zeroPadded 2 (value.mon + 1)
  | .compactTime => compactClockText value
  | .yearFirstMinute =>
    dateText token value ++ [token.dateTimeSeparator] ++ hourText token value ++ bytes ":" ++
      zeroPadded 2 value.min
  | .monthDayYear =>
    monthDayText value ++ bytes " " ++ yearText value ++ bytes " " ++ clockText value
  | .dateOnly => dateText token value
  | .yearMonth => yearText value ++ [token.dateSeparator] ++ zeroPadded 2 (value.mon + 1)
  | .timeOnly => hourText token value ++ minuteSecond value

/-- What `append_timestamp` appends after the buffer. -/
def timestampTail (token : TimestampToken) (point : ℤ) : Bytes :=
  match token.style with
  | .iso8601 | .yearFirst | .compactWithT =>
    fractionText point token.fractionalDigits ++ token.zoneSuffix
  | .monthDayYear => if token.zoneSuffix = [] then [] else bytes " " ++ token.zoneSuffix
  | .timeOnly => fractionText point token.fractionalDigits
  | _ => []

/-- What `append_timestamp` appends. -/
def timestampText (localTime : ℤ → Tm) (token : TimestampToken) (point : ℤ) (calendarTime : Bool) :
    Bytes :=
  let value := makeTime localTime point token calendarTime
  let weekday := if token.hasWeekday then weekdays.getD value.wday.toNat [] ++ [space] else []
  weekday ++ snprintf 64 (bufferText token value) ++ timestampTail token point

end Application
end LogGenerator
