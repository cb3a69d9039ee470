import StreamQuery.Calendar.Reading
import StreamQuery.Function.Arguments

/-!
# Calendar functions

Functions on moments. A moment travels as its text; where one is expected, a number of seconds
since the beginning of 1970 is taken as well.
-/

namespace StreamQuery

/-- The functions on moments. -/
inductive CalendarFunction where
  | now
  | utcnow
  | fromtimestamp
  | timestamp
  | strftime
  | strptime
  | date
  deriving DecidableEq, Repr

namespace CalendarFunction

open Calendar

/-- All functions on moments. -/
def all : List CalendarFunction :=
  [.now, .utcnow, .fromtimestamp, .timestamp, .strftime, .strptime, .date]

/-- The name of a function. -/
def name : CalendarFunction → String
  | .now => "now"
  | .utcnow => "utcnow"
  | .fromtimestamp => "fromtimestamp"
  | .timestamp => "timestamp"
  | .strftime => "strftime"
  | .strptime => "strptime"
  | .date => "date"

/-- The moment a number of seconds after the beginning of 1970, to the millisecond. -/
def momentOfSeconds? (seconds : Float) : Option DateTime :=
  DateTime.ofMilliseconds? (Number.saturatedInt64 (seconds * 1000.0).round)

/-- The moment that a value means. -/
def moment (value : Value) : Except Error DateTime :=
  let ofSeconds (seconds : Float) : Except Error DateTime :=
    match momentOfSeconds? seconds with
    | some moment => .ok moment
    | none => .error (.eval .timestampInvalid)
  match value with
  | .str s => match DateTime.ofText? s with
    | some moment => .ok moment
    | none => .error (.eval (.dateUnreadable s))
  | .int n => ofSeconds (Number.floatOfInt n.val)
  | .float x => ofSeconds x.val
  | value => .error (.type (.notDateTime value.kind))

/-- Applies a function to its arguments; `clock` is the present moment. -/
def apply (clock : DateTime) (function : CalendarFunction) :
    List Value → Except Error Value :=
  let name := function.name
  match function with
  | .now => Arguments.none name (.ok (.str clock.text))
  | .utcnow => Arguments.none name (.ok (.str clock.text))
  | .fromtimestamp => Arguments.one name fun seconds => do
    let seconds ← Arguments.number name seconds
    match momentOfSeconds? seconds with
    | some moment => return .str moment.text
    | none => .error (.eval (.timestampRange seconds))
  | .timestamp => Arguments.one name fun value =>
    return .ofFloat (Number.floatOfInt (← moment value).milliseconds / 1000.0)
  | .strftime => Arguments.two name fun value format => do
    let moment ← moment value
    let format ← Arguments.text name format
    match moment.write? format with
    | some text => return .str text
    | none => .error (.eval (.dateFormat format))
  | .strptime => Arguments.two name fun text format => do
    let text ← Arguments.text name text
    let format ← Arguments.text name format
    match DateTime.readOrDate? format text with
    | some moment => return .str moment.text
    | none => .error (.eval (.dateMismatch text format))
  | .date => Arguments.one name fun value => return .str (← moment value).date.text

end CalendarFunction

end StreamQuery
