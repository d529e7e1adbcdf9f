import Mathlib.Tactic
import Tokenweir.Lib.Text

/-!
# Dates and times

The proleptic Gregorian calendar from year 1 to 9999, times of day to the microsecond, and
offsets from UTC, with the ISO 8601 strings that Python 3.11 is documented to read; it also reads
some others, as `12:34.5`, which are none here.

* `Date`, `Date.ordinal`, `Date.ofOrdinal`, `Date.ofWeek`;
* `DateTime`, `DateTime.instant`;
* `isoDate`, `isoTime`, `isoOffset`, `DateTime.fromIsoFormat`.
-/

namespace Tokenweir

/-! ### Dates -/

def isLeap (year : ℕ) : Bool := year % 4 = 0 ∧ (year % 100 ≠ 0 ∨ year % 400 = 0)

def daysInMonth (year month : ℕ) : ℕ :=
  match month with
  | 2 => if isLeap year then 29 else 28
  | 4 | 6 | 9 | 11 => 30
  | _ => 31

/-- The days of the months before this one. -/
def daysBeforeMonth (year month : ℕ) : ℕ :=
  ((List.range (month - 1)).map fun m => daysInMonth year (m + 1)).sum

/-- The days of the years before this one. -/
def daysBeforeYear (year : ℕ) : ℕ :=
  (year - 1) * 365 + (year - 1) / 4 - (year - 1) / 100 + (year - 1) / 400

/-- A date; one that is out of range cannot be built. -/
structure Date where
  year : ℕ
  month : ℕ
  day : ℕ
  year_range : 1 ≤ year ∧ year ≤ 9999
  month_range : 1 ≤ month ∧ month ≤ 12
  day_range : 1 ≤ day ∧ day ≤ daysInMonth year month
  deriving DecidableEq, Repr

namespace Date

def make (year month day : ℕ) : Option Date :=
  if h : (1 ≤ year ∧ year ≤ 9999) ∧ (1 ≤ month ∧ month ≤ 12) ∧
      (1 ≤ day ∧ day ≤ daysInMonth year month) then
    some ⟨year, month, day, h.1, h.2.1, h.2.2⟩
  else none

/-- The number of the day; that of January 1 of year 1 is 1. -/
def ordinal (d : Date) : ℕ := daysBeforeYear d.year + daysBeforeMonth d.year d.month + d.day

/-- The month and the day of a day of the year, counted from 0. -/
def monthDay (year n : ℕ) : ℕ × ℕ :=
  let month := ((List.range 12).filter fun m => daysBeforeMonth year (m + 1) ≤ n).length
  (month, n - daysBeforeMonth year month + 1)

/-- The date of an ordinal. -/
def ofOrdinal (n : ℕ) : Option Date :=
  let n := n - 1
  let n400 := n / 146097
  let n := n % 146097
  let n100 := n / 36524
  let n := n % 36524
  let n4 := n / 1461
  let n := n % 1461
  let n1 := n / 365
  let year := n400 * 400 + n100 * 100 + n4 * 4 + n1 + 1
  if n1 = 4 ∨ n100 = 4 then make (year - 1) 12 31
  else make year (monthDay year (n % 365)).1 (monthDay year (n % 365)).2

/-- The ordinal of the Monday of the first ISO week. -/
def firstMonday (year : ℕ) : ℕ :=
  let first := daysBeforeYear year + 1
  let weekday := (first + 6) % 7
  if 3 < weekday then first - weekday + 7 else first - weekday

/-- The date of a day of an ISO week. -/
def ofWeek (year week day : ℕ) : Option Date :=
  let first := (daysBeforeYear year + 1) % 7
  if (1 ≤ year ∧ year ≤ 9999) ∧ (1 ≤ week ∧ week ≤ 52 ∨
      week = 53 ∧ (first = 4 ∨ first = 3 ∧ isLeap year)) ∧ (1 ≤ day ∧ day ≤ 7) then
    ofOrdinal (firstMonday year + (week - 1) * 7 + (day - 1))
  else none

end Date

/-! ### Dates with a time -/

/-- The microseconds of a day. -/
def dayLength : ℕ := 86400000000

/-- A date, a time of day in microseconds, and the offset of its zone, if it has one. -/
structure DateTime where
  date : Date
  time : ℕ
  offset : Option ℤ
  time_lt : time < dayLength
  offset_range : ∀ o ∈ offset, -(dayLength : ℤ) < o ∧ o < dayLength
  deriving DecidableEq, Repr

namespace DateTime

/-- The instant, in microseconds since the beginning of year 1, of a time whose zone is UTC
unless it names another one. -/
def instant (t : DateTime) : ℤ :=
  ((t.date.ordinal - 1 : ℕ) : ℤ) * dayLength + t.time - t.offset.getD 0

/-! ### ISO 8601 -/

/-- `YYYY-MM-DD`, `YYYYMMDD`, `YYYY-Www`, `YYYYWww`, `YYYY-Www-D` or `YYYYWwwD`. -/
def isoDate (s : Text) : Option Date := do
  let (year, s) ← s.digits 4
  let separated := (s.after '-').isSome
  let s := (s.after '-').getD s
  match s.after 'W' with
  | some s =>
    let (week, s) ← s.digits 2
    if s = [] then Date.ofWeek year week 1
    else
      let s ← if separated then s.after '-' else some s
      let (day, s) ← s.digits 1
      if s = [] then Date.ofWeek year week day else none
  | none =>
    let (month, s) ← s.digits 2
    let s ← if separated then s.after '-' else some s
    let (day, s) ← s.digits 2
    if s = [] then Date.make year month day else none

/-- The length of the date at the front of a string of seven or more characters. -/
def isoDateLength (s : Text) : ℕ :=
  let dash := CodePoint.of '-'
  let week := CodePoint.of 'W'
  if s.length = 7 then 7
  else if s[4]? = some dash then
    if s[5]? = some week then
      if s[8]? = some dash then if (s[10]?.map Text.isDigit).getD false then 8 else 10 else 8
    else 10
  else if s[4]? = some week then
    -- a number of digits after the week that is even is a day and then no day
    let i := 7 + ((s.drop 7).takeWhile Text.isDigit).length
    if i < 9 then i else if i % 2 = 0 then 7 else 8
  else 8

/-- The fraction of a second, after a `.` or a `,`, in microseconds; more digits are cut off. -/
def isoFraction (s : Text) : Option ℕ := do
  let s ← s.after '.' <|> s.after ','
  if s ≠ [] ∧ s.all Text.isDigit then
    some (Text.number (s.take 6) * 10 ^ (6 - (s.take 6).length))
  else none

/-- `HH[[:]MM[[:]SS[.ffffff]]]`, in microseconds with the hours, minutes and seconds. -/
def isoClock (s : Text) : Option (ℕ × ℕ × ℕ × ℕ) := do
  let (hours, s) ← s.digits 2
  if s = [] then some (hours, 0, 0, 0)
  else
    let separated := (s.after ':').isSome
    let (minutes, s) ← ((s.after ':').getD s).digits 2
    if s = [] then some (hours, minutes, 0, 0)
    else
      let s ← if separated then s.after ':' else some s
      let (seconds, s) ← s.digits 2
      if s = [] then some (hours, minutes, seconds, 0)
      else
        let micros ← isoFraction s
        some (hours, minutes, seconds, micros)

/-- The microseconds of hours, minutes, seconds and microseconds. -/
def micros : ℕ × ℕ × ℕ × ℕ → ℕ
  | (hours, minutes, seconds, us) => ((hours * 60 + minutes) * 60 + seconds) * 1000000 + us

def isSign (c : CodePoint) : Bool :=
  c == CodePoint.of '+' || c == CodePoint.of '-' || c == CodePoint.of 'Z'

/-- A time zone, `Z` or `±HH[[:]MM[[:]SS[.ffffff]]]`; nothing is no zone. -/
def isoOffset : Text → Option (Option ℤ)
  | [] => some none
  | c :: s =>
    if c = CodePoint.of 'Z' then if s = [] then some (some 0) else none
    else do
      let clock ← isoClock s
      some (some (if c = CodePoint.of '-' then -(micros clock : ℤ) else micros clock))

/-- A time of day with its zone. -/
def isoTime (s : Text) : Option (ℕ × Option ℤ) := do
  let (hours, minutes, seconds, us) ← isoClock (s.takeWhile fun c => !isSign c)
  let offset ← isoOffset (s.dropWhile fun c => !isSign c)
  if hours < 24 ∧ minutes < 60 ∧ seconds < 60 then
    some (micros (hours, minutes, seconds, us), offset)
  else none

/-- A date with a time. -/
def make (date : Date) (time : ℕ) (offset : Option ℤ) : Option DateTime :=
  if h : time < dayLength ∧ ∀ o ∈ offset, -(dayLength : ℤ) < o ∧ o < dayLength then
    some ⟨date, time, offset, h.1, h.2⟩
  else none

/-- `datetime.fromisoformat`: a date, and after one character of any kind a time. -/
def fromIsoFormat (s : Text) : Option DateTime :=
  if s.length < 7 then none
  else do
    let n := isoDateLength s
    let date ← isoDate (s.take n)
    if s.length ≤ n then make date 0 none
    else
      let (time, offset) ← isoTime (s.drop (n + 1))
      make date time offset

end DateTime

end Tokenweir
