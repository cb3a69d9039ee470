import StreamQuery.Calendar.Format
import StreamQuery.Number.Reading

/-!
# Reading dates

A text is read along the items of a format. The fields it gives are collected, each at most once
or with the same value again, and the date and the time are then resolved from them; every field
has to agree with the result.
-/

namespace StreamQuery.Calendar

/-- A quantity that a text can give. -/
inductive Field where
  | year
  | century
  | yearOfCentury
  | isoYear
  | isoYearOfCentury
  | quarter
  | month
  | day
  | weekFromSunday
  | weekFromMonday
  | isoWeek
  | weekday
  | ordinal
  | halfOfDay
  | hourOfHalf
  | minute
  | second
  | nanosecond
  | timestamp
  | offset
  deriving DecidableEq, Repr

/-- The least and the greatest value of a field. -/
def Field.limits : Field → Int × Int
  | .year => (-0x80000000, 0x7FFFFFFF)
  | .century => (0, 0x7FFFFFFF)
  | .yearOfCentury => (0, 99)
  | .isoYear => (-0x80000000, 0x7FFFFFFF)
  | .isoYearOfCentury => (0, 99)
  | .quarter => (1, 4)
  | .month => (1, 12)
  | .day => (1, 31)
  | .weekFromSunday => (0, 53)
  | .weekFromMonday => (0, 53)
  | .isoWeek => (1, 53)
  | .weekday => (0, 6)
  | .ordinal => (1, 366)
  | .halfOfDay => (0, 1)
  | .hourOfHalf => (0, 11)
  | .minute => (0, 59)
  | .second => (0, 60)
  | .nanosecond => (0, 999999999)
  | .timestamp => (-0x8000000000000000, 0x7FFFFFFFFFFFFFFF)
  | .offset => (-0x80000000, 0x7FFFFFFF)

/-- The fields given so far. -/
abbrev Fields := List (Field × Int)

namespace Fields

/-- The value given for a field. -/
def value? (fields : Fields) (field : Field) : Option Int :=
  fields.lookup field

/-- One more field; a value out of range or another value than before is refused. -/
def record? (fields : Fields) (field : Field) (value : Int) : Option Fields :=
  if field.limits.1 ≤ value ∧ value ≤ field.limits.2 then
    match fields.value? field with
    | some before => if before = value then some fields else none
    | none => some ((field, value) :: fields)
  else none

/-- An hour of the day recorded. -/
def recordHour? (fields : Fields) (hour : Int) : Option Fields := do
  (← fields.record? .halfOfDay (hour / 12)).record? .hourOfHalf (hour % 12)

/-- A number read for a field of a format. -/
def recordNumber? (fields : Fields) (field : NumberField) (value : Int) : Option Fields :=
  match field with
  | .year => fields.record? .year value
  | .century => fields.record? .century value
  | .yearOfCentury => fields.record? .yearOfCentury value
  | .isoYear => fields.record? .isoYear value
  | .isoYearOfCentury => fields.record? .isoYearOfCentury value
  | .quarter => fields.record? .quarter value
  | .month => fields.record? .month value
  | .day => fields.record? .day value
  | .weekFromSunday => fields.record? .weekFromSunday value
  | .weekFromMonday => fields.record? .weekFromMonday value
  | .isoWeek => fields.record? .isoWeek value
  | .daysFromSunday => if value ≤ 6 then fields.record? .weekday ((value + 6) % 7) else none
  | .daysFromMonday => fields.record? .weekday (value - 1)
  | .ordinal => fields.record? .ordinal value
  | .hour => fields.recordHour? value
  | .hourOnClock =>
    if 1 ≤ value ∧ value ≤ 12 then fields.record? .hourOfHalf (value % 12) else none
  | .minute => fields.record? .minute value
  | .second => fields.record? .second value
  | .nanosecond => fields.record? .nanosecond value
  | .timestamp => fields.record? .timestamp value

end Fields

/-! ### Scanning -/

/-- The fields given so far and the text still to read. -/
abbrev Scan := Fields × List Char

/-- A number of at least `least` and at most `most` digits. -/
def scanNumber? (least : Nat) (most : Option Nat) (text : List Char) :
    Option (Int × List Char) :=
  let digits := (match most with
    | some most => text.take most
    | none => text).takeWhile Char.isDigit
  let value : Int := Number.naturalOfDecimals digits
  if digits.length < least || 0x8000000000000000 ≤ value then none
  else some (value, text.drop digits.length)

/-- The number of digits of a field without a sign, and whether it may have one. -/
def NumberField.width : NumberField → Option Nat × Bool
  | .year => (some 4, true)
  | .isoYear => (some 4, true)
  | .timestamp => (none, true)
  | .nanosecond => (some 9, false)
  | .ordinal => (some 3, false)
  | .quarter => (some 1, false)
  | .daysFromSunday => (some 1, false)
  | .daysFromMonday => (some 1, false)
  | _ => (some 2, false)

/-- The value of a number field. -/
def scanField? (field : NumberField) (text : List Char) : Option (Int × List Char) :=
  let (width, signed) := field.width
  match signed, text with
  | true, '-' :: rest => (scanNumber? 1 none rest).map fun (n, rest) => (-n, rest)
  | true, '+' :: rest => scanNumber? 1 none rest
  | _, text => scanNumber? 1 width text

/-- The text after a word, in any case of its letters. -/
def dropWord? (word text : List Char) : Option (List Char) :=
  if (text.take word.length).map Char.toLower == word.map Char.toLower then
    some (text.drop word.length)
  else none

/-- The index of the name whose first three letters a text begins with; with `long` the rest of
the name is passed over if it is there. -/
def scanName? (long : Bool) (names : List (List Char)) (text : List Char) :
    Option (Nat × List Char) := do
  let index ← names.findIdx? fun name => (dropWord? (name.take 3) text).isSome
  let rest := text.drop 3
  let tail := ((names[index]?).getD []).drop 3
  some (index, if long then (dropWord? tail rest).getD rest else rest)

/-- A decimal fraction of at most nine digits; digits after them are passed over. -/
def scanFraction? (text : List Char) : Option (Int × List Char) := do
  let (value, rest) ← scanNumber? 1 (some 9) text
  some (value * Nat.pow 10 (9 - (text.length - rest.length)), rest.dropWhile Char.isDigit)

/-- A fraction of a fixed number of digits. -/
def scanFixedFraction? (digits : Nat) (text : List Char) : Option (Int × List Char) := do
  let (value, rest) ← scanNumber? digits (some digits) text
  some (value * Nat.pow 10 (9 - digits), rest)

/-- The text after an optional colon and blanks. -/
def dropLooseColon (text : List Char) : Option (List Char) :=
  some (text.dropWhile fun c => c == ':' || Unicode.isWhitespace c)

/-- The text after a colon. -/
def dropColon? : List Char → Option (List Char)
  | ':' :: rest => some rest
  | _ => none

/-- An offset of a time zone in seconds: a sign, two digits of hours and two of minutes. -/
def scanOffset? (separator : List Char → Option (List Char)) (zulu missingMinutes : Bool)
    (text : List Char) : Option (Int × List Char) :=
  let offset (factor : Int) (text : List Char) : Option (Int × List Char) := do
    let (hours, rest) ← scanNumber? 2 (some 2) text
    let rest ← separator rest
    if missingMinutes && rest.isEmpty then some (factor * hours * 3600, rest)
    else
      let (minutes, rest) ← scanNumber? 2 (some 2) rest
      if minutes < 60 then some (factor * (hours * 3600 + minutes * 60), rest) else none
  match text with
  | '+' :: rest => offset 1 rest
  | '-' :: rest => offset (-1) rest
  | '−' :: rest => offset (-1) rest
  | c :: rest => if zulu && (c == 'Z' || c == 'z') then some (0, rest) else none
  | [] => none

/-- A text read along an item other than a whole Internet time. -/
def readItem? (scan : Scan) (item : FormatItem) : Option Scan :=
  let (fields, text) := scan
  match item with
  | .literal literal =>
    if literal.isPrefixOf text then some (fields, text.drop literal.length) else none
  | .space _ => some (fields, text.dropWhile Unicode.isWhitespace)
  | .number field _ => do
    let (value, rest) ← scanField? field (text.dropWhile Unicode.isWhitespace)
    some (← fields.recordNumber? field value, rest)
  | .monthName long => do
    let (index, rest) ← scanName? long monthNames text
    some (← fields.record? .month (index + 1), rest)
  | .weekdayName long => do
    let (index, rest) ← scanName? long weekdayNames text
    some (← fields.record? .weekday index, rest)
  | .halfOfDay _ => do
    match dropWord? ['a', 'm'] text, dropWord? ['p', 'm'] text with
    | some rest, _ => some (← fields.record? .halfOfDay 0, rest)
    | none, some rest => some (← fields.record? .halfOfDay 1, rest)
    | none, none => none
  | .shortFraction => match text with
    | '.' :: rest => do
      let (value, rest) ← scanFraction? rest
      some (← fields.record? .nanosecond value, rest)
    | text => some (fields, text)
  | .fraction digits true => match text with
    | '.' :: rest => do
      let (value, rest) ← scanFixedFraction? digits rest
      some (← fields.record? .nanosecond value, rest)
    | text => some (fields, text)
  | .fraction digits false => do
    let (value, rest) ← scanFixedFraction? digits text
    some (← fields.record? .nanosecond value, rest)
  | .zoneName => some (fields, text.dropWhile fun c => !Unicode.isWhitespace c)
  | .zoneOffset permissive => do
    let (value, rest) ←
      scanOffset? dropLooseColon permissive permissive (text.dropWhile Unicode.isWhitespace)
    some (← fields.record? .offset value, rest)
  | .internetTime => none
  | .malformed => none

/-- The items before the letter between date and time. -/
def looseDateItems : List FormatItem :=
  [.zeros .year, .space [], .sign '-', .zeros .month, .space [], .sign '-', .zeros .day]

/-- The items between that letter and the time zone. -/
def looseTimeItems : List FormatItem :=
  [.zeros .hour, .space [], .sign ':', .zeros .minute, .space [], .sign ':', .zeros .second,
    .shortFraction, .space []]

/-- An Internet time with blanks allowed around its numbers, and `UTC` as a time zone. -/
def readLooseTime? (scan : Scan) : Option Scan := do
  let (fields, text) ← looseDateItems.foldlM readItem? scan
  match text with
  | c :: rest =>
    if c == 't' || c == 'T' || c == ' ' then
      let (fields, text) ← looseTimeItems.foldlM readItem? (fields, rest)
      let (value, rest) ← match dropWord? ['u', 't', 'c'] text with
        | some rest => some (0, rest)
        | none => scanOffset? dropLooseColon true false text
      some (← fields.record? .offset value, rest)
    else none
  | [] => none

/-- The fields of a text that a format reads whole. -/
def readFields? (format text : List Char) : Option Fields := do
  let step (scan : Scan) (item : FormatItem) : Option Scan :=
    match item with
    | .internetTime => readLooseTime? scan
    | item => readItem? scan item
  let (fields, rest) ← (formatItems format).foldlM step ([], text)
  if rest.isEmpty then some fields else none

/-! ### Resolving -/

/-- Why fields give no date or time. -/
inductive Unresolved where
  | insufficient
  | contradictory
  deriving DecidableEq, Repr

/-- What is there, or the fields contradict each other. -/
def required {α : Type} (found : Option α) : Except Unresolved α :=
  match found with
  | some value => .ok value
  | none => .error .contradictory

/-- The year meant by a full year, its hundreds and the rest. Two digits alone mean a year from
1970 to 2069. -/
def resolveYear (full hundreds rest : Option Int) : Except Unresolved (Option Int) :=
  match full, hundreds, rest with
  | full, none, none => .ok full
  | some full, hundreds, rest =>
    if 0 ≤ full ∧ hundreds.all (· == full / 100) ∧ rest.all (· == full % 100) then
      .ok (some full)
    else .error .contradictory
  | none, some hundreds, some rest =>
    if hundreds * 100 + rest < 0x80000000 then .ok (some (hundreds * 100 + rest))
    else .error .contradictory
  | none, none, some rest => .ok (some (rest + if rest < 70 then 2000 else 1900))
  | none, some _, none => .error .insufficient

namespace Fields

/-- Whether a field is absent or has a value. -/
def admits (fields : Fields) (field : Field) (value : Int) : Bool :=
  (fields.value? field).all (· == value)

/-- Whether fields that make sense only in years from zero on agree with a year. -/
def admitsYear (fields : Fields) (full hundreds rest : Field) (year : Int) : Bool :=
  fields.admits full year &&
    if 0 ≤ year then fields.admits hundreds (year / 100) && fields.admits rest (year % 100)
    else (fields.value? hundreds).isNone && (fields.value? rest).isNone

/-- Whether the year, month and day given agree with a date. -/
def admitsMonth (fields : Fields) (date : Date) : Bool :=
  fields.admitsYear .year .century .yearOfCentury date.year &&
    fields.admits .month date.month && fields.admits .day date.day

/-- Whether the week and weekday given agree with a date. -/
def admitsIsoWeek (fields : Fields) (date : Date) : Bool :=
  let (year, week) := date.isoWeek
  fields.admits .isoYear year &&
    (if 0 ≤ year then fields.admits .isoYearOfCentury (year % 100)
      else (fields.value? .isoYearOfCentury).isNone) &&
    fields.admits .isoWeek week && fields.admits .weekday date.weekday

/-- Whether the day of the year and the other weeks given agree with a date. -/
def admitsOrdinal (fields : Fields) (date : Date) : Bool :=
  fields.admits .ordinal date.ordinal && fields.admits .weekFromSunday (date.weeksFrom 6) &&
    fields.admits .weekFromMonday (date.weeksFrom 0)

/-- A natural number given for a field. -/
def natural? (fields : Fields) (field : Field) : Option Nat :=
  (fields.value? field).map Int.toNat

/-- The date given by the first sufficient group of fields, with whether the others agree. -/
def candidateDate (fields : Fields) : Except Unresolved (Date × Bool) := do
  let year ← resolveYear (fields.value? .year) (fields.value? .century)
    (fields.value? .yearOfCentury)
  let isoYear ← resolveYear (fields.value? .isoYear) none (fields.value? .isoYearOfCentury)
  let weekday := fields.natural? .weekday
  match year, fields.natural? .month, fields.natural? .day with
  | some year, some month, some day =>
    let date ← required (Date.ofMonth? year month day)
    return (date, fields.admitsIsoWeek date && fields.admitsOrdinal date)
  | _, _, _ =>
  let checked (date : Date) : Date × Bool :=
    (date, fields.admitsMonth date && fields.admitsIsoWeek date && fields.admitsOrdinal date)
  match year, fields.value? .ordinal with
  | some year, some ordinal => return checked (← required (Date.ofOrdinal? year ordinal))
  | _, _ =>
  match year, fields.natural? .weekFromSunday, weekday with
  | some year, some week, some weekday =>
    return checked (← required (Date.ofWeek? 6 year week weekday))
  | _, _, _ =>
  match year, fields.natural? .weekFromMonday, weekday with
  | some year, some week, some weekday =>
    return checked (← required (Date.ofWeek? 0 year week weekday))
  | _, _, _ =>
  match isoYear, fields.natural? .isoWeek, weekday with
  | some year, some week, some weekday =>
    let date ← required (Date.ofIsoWeek? year week weekday)
    return (date, fields.admitsMonth date && fields.admitsOrdinal date)
  | _, _, _ => .error .insufficient

/-- The date that the fields give. -/
def date (fields : Fields) : Except Unresolved Date := do
  let (date, agrees) ← fields.candidateDate
  if agrees && fields.admits .quarter date.quarter then return date
  else .error .contradictory

/-- A natural number given for a field that has to be there. -/
def needed (fields : Fields) (field : Field) : Except Unresolved Nat :=
  match fields.natural? field with
  | some value => .ok value
  | none => .error .insufficient

/-- The second of the day and the nanosecond that the fields give; seconds may be left out. -/
def time (fields : Fields) : Except Unresolved (Nat × Nat) := do
  let half ← fields.needed .halfOfDay
  let hour ← fields.needed .hourOfHalf
  let minute ← fields.needed .minute
  let second := fields.natural? .second
  let fraction := fields.natural? .nanosecond
  if second.isNone && fraction.isSome then .error .insufficient
  else
    let leap := second == some 60
    let whole := if leap then 59 else second.getD 0
    return (((half * 12 + hour) * 60 + minute) * 60 + whole,
      fraction.getD 0 + if leap then 1000000000 else 0)

/-- The moment given by a timestamp, if the other fields agree. -/
def momentOfTimestamp? (fields : Fields) (timestamp : Int) : Option DateTime := do
  let moment ← DateTime.ofTimestamp? timestamp 0
  let (moment, fields) ←
    if fields.value? .second = some 60 then
      if moment.second % 60 = 59 then some (moment, fields)
      else if moment.second % 60 = 0 then
        (DateTime.ofTimestamp? (timestamp - 1) 0).map (·, fields)
      else none
    else (fields.record? .second (moment.second % 60 : Nat)).map (moment, ·)
  let fields ← fields.record? .year moment.date.year
  let fields ← fields.record? .ordinal moment.date.ordinal
  let fields ← fields.recordHour? moment.hour
  let fields ← fields.record? .minute moment.minute
  match fields.date, fields.time with
  | .ok date, .ok (second, nanosecond) => some ⟨date, second, nanosecond⟩
  | _, _ => none

/-- The moment that the fields give, `offset` seconds ahead of the timestamp if there is one. -/
def moment? (fields : Fields) (offset : Int) : Option DateTime :=
  match fields.date, fields.time, fields.value? .timestamp with
  | .ok date, .ok (second, nanosecond), timestamp =>
    let moment : DateTime := ⟨date, second, nanosecond⟩
    let agrees (given : Int) : Bool :=
      given == moment.timestamp - offset ||
        (nanosecond ≥ 1000000000 && given == moment.timestamp - offset + 1)
    if timestamp.all agrees then some moment else none
  | date, time, some timestamp =>
    let contradicts {α : Type} (result : Except Unresolved α) : Bool :=
      match result with
      | .error .contradictory => true
      | _ => false
    if contradicts date || contradicts time then none
    else fields.momentOfTimestamp? (timestamp + offset)
  | _, _, none => none

end Fields

/-! ### Whole texts -/

/-- A moment read in a format. -/
def DateTime.read? (format text : String) : Option DateTime := do
  (← readFields? format.toList text.toList).moment? 0

/-- A date read in a format. -/
def Date.read? (format text : String) : Option Date := do
  (← readFields? format.toList text.toList).date.toOption

/-- A moment, or the beginning of a date, read in a format. -/
def DateTime.readOrDate? (format text : String) : Option DateTime :=
  (DateTime.read? format text).orElse fun _ => (Date.read? format text).map (⟨·, 0, 0⟩)

/-- The text after a character. -/
def dropChar? (c : Char) : List Char → Option (List Char)
  | d :: rest => if c == d then some rest else none
  | [] => none

/-- A number of a fixed number of digits recorded. -/
def readFixed? (digits : Nat) (field : NumberField) (scan : Scan) : Option Scan := do
  let (value, rest) ← scanNumber? digits (some digits) scan.2
  some (← scan.1.recordNumber? field value, rest)

/-- The moment, in universal time, of an Internet time: a full date and a full time with a time
zone of less than a day. -/
def DateTime.readInternet? (text : String) : Option DateTime := do
  let (fields, rest) ← readFixed? 4 .year ([], text.toList)
  let (fields, rest) ← readFixed? 2 .month (fields, ← dropChar? '-' rest)
  let (fields, rest) ← readFixed? 2 .day (fields, ← dropChar? '-' rest)
  let rest ← match rest with
    | c :: rest => if c == 't' || c == 'T' || c == ' ' then some rest else none
    | [] => none
  let (fields, rest) ← readFixed? 2 .hour (fields, rest)
  let (fields, rest) ← readFixed? 2 .minute (fields, ← dropChar? ':' rest)
  let (fields, rest) ← readFixed? 2 .second (fields, ← dropChar? ':' rest)
  let (fields, rest) ← readItem? (fields, rest) .shortFraction
  let (offset, rest) ← scanOffset? dropColon? true false rest
  if rest.isEmpty ∧ offset.natAbs < 86400 then
    let moment ← fields.moment? offset
    DateTime.ofTimestamp? (moment.timestamp - offset) moment.nanosecond
  else none

/-- The moment that a text means: an Internet time, a moment without time zone, or a date. -/
def DateTime.ofText? (text : String) : Option DateTime :=
  (DateTime.readInternet? text).orElse fun _ =>
  (DateTime.read? momentFormat text).orElse fun _ =>
  (DateTime.read? "%Y-%m-%d %H:%M:%S%.f" text).orElse fun _ =>
  (Date.read? dateFormat text).map (⟨·, 0, 0⟩)

end StreamQuery.Calendar
