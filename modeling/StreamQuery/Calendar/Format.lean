import StreamQuery.Calendar.Date
import StreamQuery.Number.Notation
import StreamQuery.Unicode.Property

/-!
# Date formats

A format is text with fields, each a percent sign, an optional padding and a letter. Writing a
moment fails if the format is malformed or asks for a time zone, which moments do not have.
-/

namespace StreamQuery.Calendar

/-- A number in a format. -/
inductive NumberField where
  | year
  | century
  | yearOfCentury
  | isoYear
  | isoYearOfCentury
  | quarter
  | month
  | day
  | weekFromSunday
  | weekFromMonday
  | isoWeek
  | daysFromSunday
  | daysFromMonday
  | ordinal
  | hour
  | hourOnClock
  | minute
  | second
  | nanosecond
  | timestamp
  deriving DecidableEq, Repr

/-- What fills a number up to its width. -/
inductive Padding where
  | nothing
  | zero
  | blank
  deriving DecidableEq, Repr

/-- An element of a format. -/
inductive FormatItem where
  | literal (text : List Char)
  | space (text : List Char)
  | number (field : NumberField) (padding : Padding)
  | monthName (long : Bool)
  | weekdayName (long : Bool)
  | halfOfDay (upper : Bool)
  | shortFraction
  | fraction (digits : Nat) (point : Bool)
  | zoneName
  | zoneOffset (permissive : Bool)
  | internetTime
  | malformed
  deriving DecidableEq, Repr

namespace FormatItem

/-- A literal of one character. -/
def sign (c : Char) : FormatItem := .literal [c]

/-- A number padded with zeros. -/
def zeros (field : NumberField) : FormatItem := .number field .zero

/-- A number padded with blanks. -/
def blanks (field : NumberField) : FormatItem := .number field .blank

/-- Hours, minutes and seconds. -/
def clock (hours : NumberField) : List FormatItem :=
  [zeros hours, sign ':', zeros .minute, sign ':', zeros .second]

/-- Month, day and year with slashes. -/
def slashed : List FormatItem :=
  [zeros .month, sign '/', zeros .day, sign '/', zeros .yearOfCentury]

/-- What a letter after a percent sign stands for. -/
def ofLetter (letter : Char) : List FormatItem :=
  match letter with
  | 'A' => [.weekdayName true]
  | 'B' => [.monthName true]
  | 'C' => [zeros .century]
  | 'D' => slashed
  | 'F' => [zeros .year, sign '-', zeros .month, sign '-', zeros .day]
  | 'G' => [zeros .isoYear]
  | 'H' => [zeros .hour]
  | 'I' => [zeros .hourOnClock]
  | 'M' => [zeros .minute]
  | 'P' => [.halfOfDay false]
  | 'R' => [zeros .hour, sign ':', zeros .minute]
  | 'S' => [zeros .second]
  | 'T' => clock .hour
  | 'U' => [zeros .weekFromSunday]
  | 'V' => [zeros .isoWeek]
  | 'W' => [zeros .weekFromMonday]
  | 'X' => clock .hour
  | 'Y' => [zeros .year]
  | 'Z' => [.zoneName]
  | 'a' => [.weekdayName false]
  | 'b' => [.monthName false]
  | 'c' =>
    [.weekdayName false, .space [' '], .monthName false, .space [' '], blanks .day,
      .space [' ']] ++ clock .hour ++ [.space [' '], zeros .year]
  | 'd' => [zeros .day]
  | 'e' => [blanks .day]
  | 'f' => [zeros .nanosecond]
  | 'g' => [zeros .isoYearOfCentury]
  | 'h' => [.monthName false]
  | 'j' => [zeros .ordinal]
  | 'k' => [blanks .hour]
  | 'l' => [blanks .hourOnClock]
  | 'm' => [zeros .month]
  | 'n' => [.space ['\n']]
  | 'p' => [.halfOfDay true]
  | 'q' => [.number .quarter .nothing]
  | 'r' => clock .hourOnClock ++ [.space [' '], .halfOfDay true]
  | 's' => [.number .timestamp .nothing]
  | 't' => [.space ['\t']]
  | 'u' => [.number .daysFromMonday .nothing]
  | 'v' => [blanks .day, sign '-', .monthName false, sign '-', zeros .year]
  | 'w' => [.number .daysFromSunday .nothing]
  | 'x' => slashed
  | 'y' => [zeros .yearOfCentury]
  | 'z' => [.zoneOffset false]
  | '+' => [.internetTime]
  | '%' => [sign '%']
  | _ => [.malformed]

/-- A field after its percent sign and padding, and the text after it. -/
def ofSpecifier : List Char → List FormatItem × List Char
  | ':' :: ':' :: ':' :: 'z' :: rest => ([.zoneOffset false], rest)
  | ':' :: ':' :: 'z' :: rest => ([.zoneOffset false], rest)
  | ':' :: 'z' :: rest => ([.zoneOffset false], rest)
  | '.' :: '3' :: 'f' :: rest => ([.fraction 3 true], rest)
  | '.' :: '6' :: 'f' :: rest => ([.fraction 6 true], rest)
  | '.' :: '9' :: 'f' :: rest => ([.fraction 9 true], rest)
  | '.' :: 'f' :: rest => ([.shortFraction], rest)
  | '3' :: 'f' :: rest => ([.fraction 3 false], rest)
  | '6' :: 'f' :: rest => ([.fraction 6 false], rest)
  | '9' :: 'f' :: rest => ([.fraction 9 false], rest)
  | letter :: rest => (ofLetter letter, rest)
  | [] => ([.malformed], [])

/-- A field with its padding replaced, which only a single number admits. -/
def repad (padding : Padding) : List FormatItem → List FormatItem
  | [.number field _] => [.number field padding]
  | _ => [.malformed]

/-- A field after its percent sign, and the text after it. -/
def ofField : List Char → List FormatItem × List Char
  | '-' :: rest => let (items, rest) := ofSpecifier rest; (repad .nothing items, rest)
  | '0' :: rest => let (items, rest) := ofSpecifier rest; (repad .zero items, rest)
  | '_' :: rest => let (items, rest) := ofSpecifier rest; (repad .blank items, rest)
  | '#' :: 'z' :: rest => ([.zoneOffset true], rest)
  | '#' :: rest => ([.malformed], rest)
  | rest => ofSpecifier rest

/-- The items of a format; every item takes a character, so the length bounds their number. -/
def ofText (fuel : Nat) (text : List Char) : List FormatItem :=
  match fuel, text with
  | 0, _ => []
  | _, [] => []
  | fuel + 1, '%' :: rest =>
    let (items, rest) := ofField rest
    items ++ ofText fuel rest
  | fuel + 1, c :: rest =>
    if Unicode.isWhitespace c then
      .space (c :: rest.takeWhile Unicode.isWhitespace) ::
        ofText fuel (rest.dropWhile Unicode.isWhitespace)
    else
      let plain (c : Char) : Bool := c != '%' && !Unicode.isWhitespace c
      .literal (c :: rest.takeWhile plain) :: ofText fuel (rest.dropWhile plain)

end FormatItem

/-- The items of a format. -/
def formatItems (format : List Char) : List FormatItem :=
  FormatItem.ofText format.length format

/-- The names of the months. -/
def monthNames : List (List Char) :=
  ["January", "February", "March", "April", "May", "June", "July", "August", "September",
    "October", "November", "December"].map String.toList

/-- The names of the days of the week, from Monday on. -/
def weekdayNames : List (List Char) :=
  ["Monday", "Tuesday", "Wednesday", "Thursday", "Friday", "Saturday", "Sunday"].map String.toList

/-! ### Writing -/

/-- The character that fills with a padding. -/
def Padding.fill : Padding → Option Char
  | .nothing => none
  | .zero => some '0'
  | .blank => some ' '

/-- Digits filled up to a width. -/
def Padding.pad (padding : Padding) (width : Nat) (digits : List Char) : List Char :=
  match padding.fill with
  | some c => List.replicate (width - digits.length) c ++ digits
  | none => digits

/-- A number of two digits. The tens of a number over 99 are still one character. -/
def writePair (padding : Padding) (n : Nat) : List Char :=
  let tens := if n / 10 = 0 then padding.fill.toList else [Char.ofNat ('0'.toNat + n / 10)]
  tens ++ [Char.ofNat ('0'.toNat + n % 10)]

/-- A number with a sign if it is negative or `signed`; zeros go between the sign and the digits,
blanks before the sign. -/
def writeSigned (padding : Padding) (width : Nat) (signed : Bool) (n : Int) : List Char :=
  let width := if signed then width + 1 else width
  let sign := if n < 0 then ['-'] else if signed then ['+'] else []
  let digits := Number.digitsOf n.natAbs
  match padding with
  | .zero => sign ++ Padding.zero.pad (width - sign.length) digits
  | padding => padding.pad width (sign ++ digits)

/-- A year: four digits, or a sign and at least four digits. -/
def writeYear (padding : Padding) (year : Int) : List Char :=
  writeSigned padding 4 (year < 0 || 10000 ≤ year) year

/-- The value of a number field, as text. -/
def NumberField.write (field : NumberField) (padding : Padding) (moment : DateTime) : List Char :=
  let date := moment.date
  let pair (n : Nat) : List Char := writePair padding n
  let digit (n : Nat) : List Char := [Char.ofNat ('0'.toNat + n)]
  match field with
  | .year => writeYear padding date.year
  | .century => pair (date.year / 100 % 256).toNat
  | .yearOfCentury => pair (date.year % 100).toNat
  | .isoYear => writeYear padding date.isoWeek.1
  | .isoYearOfCentury => pair (date.isoWeek.1 % 100).toNat
  | .quarter => digit date.quarter
  | .month => pair date.month
  | .day => pair date.day
  | .weekFromSunday => pair (date.weeksFrom 6)
  | .weekFromMonday => pair (date.weeksFrom 0)
  | .isoWeek => pair date.isoWeek.2
  | .daysFromSunday => digit (date.daysSince 6)
  | .daysFromMonday => digit (date.weekday + 1)
  | .ordinal => writeSigned padding 3 false date.ordinal
  | .hour => pair moment.hour
  | .hourOnClock => pair moment.hourOnClock
  | .minute => pair moment.minute
  | .second => pair moment.secondOfMinute
  | .nanosecond => writeSigned padding 9 false moment.fraction
  | .timestamp => writeSigned padding 9 false moment.timestamp

/-- A name, or its first three letters. -/
def writeName (long : Bool) (names : List (List Char)) (index : Nat) : List Char :=
  let name := (names[index]?).getD []
  if long then name else name.take 3

/-- A fraction of a second with a fixed number of digits. -/
def writeFraction (moment : DateTime) (digits : Nat) : List Char :=
  Padding.zero.pad digits (Number.digitsOf (moment.fraction / Nat.pow 10 (9 - digits)))

/-- A fraction of a second after a point, in three, six or nine digits; nothing if it is zero. -/
def writeShortFraction (moment : DateTime) : List Char :=
  if moment.fraction = 0 then []
  else if moment.fraction % 1000000 = 0 then '.' :: writeFraction moment 3
  else if moment.fraction % 1000 = 0 then '.' :: writeFraction moment 6
  else '.' :: writeFraction moment 9

/-- The text of an item for a moment. -/
def FormatItem.write? (moment : DateTime) : FormatItem → Option (List Char)
  | .literal text => some text
  | .space text => some text
  | .number field padding => some (field.write padding moment)
  | .monthName long => some (writeName long monthNames (moment.date.month - 1))
  | .weekdayName long => some (writeName long weekdayNames moment.date.weekday)
  | .halfOfDay upper =>
    some (match moment.afternoon, upper with
      | false, true => ['A', 'M']
      | false, false => ['a', 'm']
      | true, true => ['P', 'M']
      | true, false => ['p', 'm'])
  | .shortFraction => some (writeShortFraction moment)
  | .fraction digits point =>
    some (if point then '.' :: writeFraction moment digits else writeFraction moment digits)
  | .zoneName => none
  | .zoneOffset _ => none
  | .internetTime => none
  | .malformed => none

/-- A moment written in a format. -/
def DateTime.write? (format : String) (moment : DateTime) : Option String :=
  ((formatItems format.toList).mapM (FormatItem.write? moment)).map fun parts =>
    String.ofList parts.flatten

/-- The format of dates. -/
def dateFormat : String := "%Y-%m-%d"

/-- The format of moments. -/
def momentFormat : String := "%Y-%m-%dT%H:%M:%S%.f"

/-- A moment in the standard format. -/
def DateTime.text (moment : DateTime) : String :=
  (moment.write? momentFormat).getD ""

/-- A date in the standard format. -/
def Date.text (date : Date) : String :=
  (DateTime.write? dateFormat ⟨date, 0, 0⟩).getD ""

end StreamQuery.Calendar
