/-!
# Dates

Dates of the Gregorian calendar, extended to all years of a fixed range, with the ways of counting
days and weeks that formats use. Days are numbered from 1970-01-01.
-/

namespace StreamQuery.Calendar

/-- A date. Months and days count from one. -/
structure Date where
  year : Int
  month : Nat
  day : Nat
  deriving DecidableEq, Repr

/-- Whether a year has a leap day. -/
def isLeapYear (year : Int) : Bool :=
  year % 4 == 0 && (year % 100 != 0 || year % 400 == 0)

/-- The number of days of a year. -/
def daysInYear (year : Int) : Nat :=
  if isLeapYear year then 366 else 365

/-- The lengths of the months of a year. -/
def monthLengths (year : Int) : List Nat :=
  [31, if isLeapYear year then 29 else 28, 31, 30, 31, 30, 31, 31, 30, 31, 30, 31]

/-- The years that dates can have. -/
def InYears (year : Int) : Prop := -262143 ≤ year ∧ year ≤ 262142

instance (year : Int) : Decidable (InYears year) := by unfold InYears; infer_instance

/-- The number of the day before the first day of a year. -/
def dayBeforeYear (year : Int) : Int :=
  let past := year - 1
  365 * past + past / 4 - past / 100 + past / 400 - 719163

namespace Date

/-- The day of the year, counted from one. -/
def ordinal (date : Date) : Nat :=
  ((monthLengths date.year).take (date.month - 1)).foldl (· + ·) 0 + date.day

/-- The number of a date. -/
def number (date : Date) : Int :=
  dayBeforeYear date.year + date.ordinal

/-- The date with a number. The day is first placed in a cycle of 400 years that begin in March,
so that leap days come last. -/
def ofNumber (number : Int) : Date :=
  let shifted := number + 719468
  let cycle := shifted / 146097
  let inCycle := (shifted % 146097).toNat
  let yearOfCycle := (inCycle - inCycle / 1460 + inCycle / 36524 - inCycle / 146096) / 365
  let inYear := inCycle - (365 * yearOfCycle + yearOfCycle / 4 - yearOfCycle / 100)
  let monthFromMarch := (5 * inYear + 2) / 153
  let day := inYear - (153 * monthFromMarch + 2) / 5 + 1
  let month := if monthFromMarch < 10 then monthFromMarch + 3 else monthFromMarch - 9
  ⟨cycle * 400 + yearOfCycle + (if month ≤ 2 then 1 else 0), month, day⟩

/-- The date with a number, if its year is in range. -/
def ofNumber? (number : Int) : Option Date :=
  let date := ofNumber number
  if InYears date.year then some date else none

/-- The date of a year, month and day. -/
def ofMonth? (year : Int) (month day : Nat) : Option Date :=
  if InYears year ∧ 1 ≤ month ∧ 1 ≤ day then
    match (monthLengths year)[month - 1]? with
    | some length => if day ≤ length then some ⟨year, month, day⟩ else none
    | none => none
  else none

/-- The date of a year and a day of the year. -/
def ofOrdinal? (year : Int) (ordinal : Int) : Option Date :=
  if InYears year ∧ 1 ≤ ordinal ∧ ordinal ≤ daysInYear year then
    some (ofNumber (dayBeforeYear year + ordinal))
  else none

/-- The day of the week: zero for Monday. -/
def weekday (date : Date) : Nat :=
  ((date.number + 3) % 7).toNat

/-- The days since the last day of the week `first`. -/
def daysSince (date : Date) (first : Nat) : Nat :=
  (date.weekday + 7 - first) % 7

/-- The week of the year when week one starts with the first day of the week `first`. -/
def weeksFrom (date : Date) (first : Nat) : Nat :=
  (date.ordinal + 6 - date.daysSince first) / 7

/-- The year and the week when a week belongs to the year that has its Thursday. -/
def isoWeek (date : Date) : Int × Nat :=
  let thursday := ofNumber (date.number - date.weekday + 3)
  (thursday.year, (thursday.ordinal - 1) / 7 + 1)

/-- The quarter of the year. -/
def quarter (date : Date) : Nat :=
  (date.month - 1) / 3 + 1

/-- The date in a week counted as `weeksFrom` does. -/
def ofWeek? (first : Nat) (year : Int) (week weekday : Nat) : Option Date := do
  let start ← ofOrdinal? year 1
  let firstWeek : Int := 1 + (first + 7 - start.weekday) % 7
  ofOrdinal? year (firstWeek + ((week : Int) - 1) * 7 + ((weekday + 7 - first) % 7 : Nat))

/-- The date in a week counted as `isoWeek` does. -/
def ofIsoWeek? (year : Int) (week weekday : Nat) : Option Date :=
  let fourth : Date := ⟨year, 1, 4⟩
  let monday := fourth.number - fourth.weekday + 7 * ((week : Int) - 1)
  if 1 ≤ week ∧ (ofNumber monday).isoWeek.1 = year then ofNumber? (monday + weekday) else none

end Date

/-- A date and a time of day in seconds and nanoseconds. A leap second is the second before it
with a thousand million nanoseconds more. -/
structure DateTime where
  date : Date
  second : Nat
  nanosecond : Nat
  deriving DecidableEq, Repr

namespace DateTime

/-- The seconds since the beginning of 1970. -/
def timestamp (moment : DateTime) : Int :=
  moment.date.number * 86400 + moment.second

/-- The whole milliseconds since the beginning of 1970. -/
def milliseconds (moment : DateTime) : Int :=
  moment.timestamp * 1000 + (moment.nanosecond / 1000000 : Nat)

/-- The moment a number of seconds after the beginning of 1970. -/
def ofTimestamp? (seconds : Int) (nanosecond : Nat) : Option DateTime :=
  (Date.ofNumber? (seconds / 86400)).map fun date =>
    ⟨date, (seconds % 86400).toNat, nanosecond⟩

/-- The moment a number of milliseconds after the beginning of 1970. -/
def ofMilliseconds? (count : Int) : Option DateTime :=
  ofTimestamp? (count / 1000) ((count % 1000).toNat * 1000000)

/-- The hour of the day. -/
def hour (moment : DateTime) : Nat := moment.second / 3600

/-- The minute of the hour. -/
def minute (moment : DateTime) : Nat := moment.second / 60 % 60

/-- The second of the minute; 60 in a leap second. -/
def secondOfMinute (moment : DateTime) : Nat :=
  moment.second % 60 + moment.nanosecond / 1000000000

/-- The nanoseconds after the last full second. -/
def fraction (moment : DateTime) : Nat := moment.nanosecond % 1000000000

/-- The hour on a clock face. -/
def hourOnClock (moment : DateTime) : Nat :=
  if moment.hour % 12 = 0 then 12 else moment.hour % 12

/-- Whether the time lies in the second half of the day. -/
def afternoon (moment : DateTime) : Bool := moment.hour ≥ 12

end DateTime

end StreamQuery.Calendar
