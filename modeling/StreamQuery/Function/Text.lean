import StreamQuery.Function.Arguments
import StreamQuery.Number.Reading
import StreamQuery.Text.Search
import StreamQuery.Unicode.Case

/-!
# Text functions

Functions on strings: case, trimming, cutting and joining, searching, and templates.
-/

namespace StreamQuery

/-- The functions on strings. -/
inductive TextFunction where
  | upper
  | lower
  | strip
  | lstrip
  | rstrip
  | replace
  | split
  | join
  | startswith
  | endswith
  | find
  | title
  | capitalize
  | substr
  | format
  deriving DecidableEq, Repr

namespace TextFunction

/-- All functions on strings. -/
def all : List TextFunction :=
  [.upper, .lower, .strip, .lstrip, .rstrip, .replace, .split, .join, .startswith, .endswith,
    .find, .title, .capitalize, .substr, .format]

/-- The name of a function. -/
def name : TextFunction → String
  | .upper => "upper"
  | .lower => "lower"
  | .strip => "strip"
  | .lstrip => "lstrip"
  | .rstrip => "rstrip"
  | .replace => "replace"
  | .split => "split"
  | .join => "join"
  | .startswith => "startswith"
  | .endswith => "endswith"
  | .find => "find"
  | .title => "title"
  | .capitalize => "capitalize"
  | .substr => "substr"
  | .format => "format"

/-- A string value of characters. -/
def ofChars (text : List Char) : Value :=
  .str (String.ofList text)

/-- Every run of letters with its first letter in upper and the others in lower case. -/
def titleCase (atStart : Bool) : List Char → List Char
  | [] => []
  | c :: rest =>
    if Unicode.isAlphabetic c then
      (if atStart then Unicode.upper c else Unicode.lower c) ++ titleCase false rest
    else c :: titleCase true rest

/-- The first character in upper and the others in lower case. -/
def capital : List Char → List Char
  | [] => []
  | c :: rest => Unicode.upper c ++ rest.flatMap Unicode.lower

/-- The characters that trimming removes: those of a string, or white space. -/
def trimmed (function : String) (set : Option Value) : Except Error (Char → Bool) :=
  match set with
  | some set => return (← Arguments.chars function set).contains
  | none => return Unicode.isWhitespace

/-- The part of a text from a position on, of a length or to its end. -/
def part (function : String) (text start : Value) (length : Option Value) :
    Except Error Value := do
  let text ← Arguments.chars function text
  let start := (← Arguments.integer function start).toNat
  if start ≥ text.length then return .str ""
  else match length with
    | some length =>
      let length := (← Arguments.integer function length).toNat
      return ofChars ((text.drop start).take length)
    | none => return ofChars (text.drop start)

/-! ### Templates -/

/-- A part of a template: text, or a field with what stands between its braces. -/
inductive Piece where
  | plain (c : Char)
  | field (content : List Char)
  deriving DecidableEq, Repr

/-- The parts of a template. A doubled brace stands for itself; a field that is not closed goes to
the end. Every part takes a character, so the length bounds their number. -/
def pieces (fuel : Nat) (template : List Char) : List Piece :=
  match fuel, template with
  | 0, _ => []
  | _, [] => []
  | fuel + 1, '\x7b' :: '\x7b' :: rest => .plain '\x7b' :: pieces fuel rest
  | fuel + 1, '\x7d' :: '\x7d' :: rest => .plain '\x7d' :: pieces fuel rest
  | fuel + 1, '\x7b' :: rest =>
    .field (rest.takeWhile (· != '\x7d')) :: pieces fuel ((rest.dropWhile (· != '\x7d')).drop 1)
  | fuel + 1, c :: rest => .plain c :: pieces fuel rest

/-- The position that the content of a field means; a blank field takes the next one. -/
def fieldIndex (content : List Char) (next : Nat) : Except Error (Nat × Nat) :=
  let trimmed := Text.trim Unicode.isWhitespace content
  if trimmed.isEmpty then .ok (next, next + 1)
  else
    let digits := match trimmed with
      | '+' :: digits => digits
      | digits => digits
    match Number.naturalOfDigits? 10 digits with
    | some index =>
      if index < 0x10000000000000000 then .ok (index, next)
      else .error (.eval (.templateField (String.ofList content)))
    | none => .error (.eval (.templateField (String.ofList content)))

/-- The text of a template whose blank fields take the values from `next` on. -/
def fill (values : Array Value) (next : Nat) : List Piece → Except Error (List Char)
  | [] => .ok []
  | .plain c :: rest => return c :: (← fill values next rest)
  | .field content :: rest => do
    let (index, next) ← fieldIndex content next
    match values[index]? with
    | some value => return value.display.toList ++ (← fill values next rest)
    | none => .error (.eval (.templateIndex index values.size))

/-- A template filled in with values. -/
def fillTemplate (template : List Char) (values : List Value) : Except Error Value :=
  return ofChars (← fill values.toArray 0 (pieces template.length template))

/-- The values of a template function: the template, then the values for its fields. -/
def applyTemplate : List Value → Except Error Value
  | [] => .error (.eval .noTemplate)
  | .null :: _ => .ok .null
  | template :: values => do fillTemplate (← Arguments.chars "format" template) values

/-- Applies a function to its arguments. -/
def apply (function : TextFunction) : List Value → Except Error Value :=
  let name := function.name
  let chars := Arguments.chars name
  match function with
  | .upper => Arguments.one name fun s => return ofChars (Unicode.upperText (← chars s))
  | .lower => Arguments.one name fun s => return ofChars (Unicode.lowerText (← chars s))
  | .strip => Arguments.oneOrTwo name fun s set => do
    let s ← chars s
    return ofChars (Text.trim (← trimmed name set) s)
  | .lstrip => Arguments.oneOrTwo name fun s set => do
    let s ← chars s
    return ofChars (Text.trimStart (← trimmed name set) s)
  | .rstrip => Arguments.oneOrTwo name fun s set => do
    let s ← chars s
    return ofChars (Text.trimEnd (← trimmed name set) s)
  | .replace => Arguments.three name fun s old new => do
    let s ← chars s
    let old ← chars old
    let new ← chars new
    return ofChars (Text.replace old new s)
  | .split => Arguments.oneOrTwo name fun s separator => do
    let s ← chars s
    match separator with
    | some separator =>
      let separator ← chars separator
      if separator.isEmpty then .error (.eval .emptySeparator)
      else return .list ((Text.cut separator s).map ofChars)
    | none => return .list ((Text.wordsBy Unicode.isWhitespace s).map ofChars)
  | .join => Arguments.two name fun separator items => do
    let separator ← Arguments.text name separator
    let items ← Arguments.list name items
    return .str (separator.intercalate (items.map Value.display))
  | .startswith => Arguments.two name fun s start => do
    let s ← chars s
    return .bool ((← chars start).isPrefixOf s)
  | .endswith => Arguments.two name fun s stop => do
    let s ← chars s
    return .bool ((← chars stop).isSuffixOf s)
  | .find => Arguments.two name fun s part => do
    let s ← chars s
    return ((Text.position? (← chars part) s).map Value.ofNat).getD (.ofInt (-1))
  | .title => Arguments.one name fun s => return ofChars (titleCase true (← chars s))
  | .capitalize => Arguments.one name fun s => return ofChars (capital (← chars s))
  | .substr => Arguments.twoOrThree name (part name)
  | .format => applyTemplate

end TextFunction

end StreamQuery
