import StreamQuery.Function.Arguments
import StreamQuery.Pattern.Matcher

/-!
# Pattern functions

Functions that search texts by regular expressions. A match is given as its text, and no match as
null.
-/

namespace StreamQuery

/-- The functions on patterns. -/
inductive SearchFunction where
  | matchStart
  | matchAll
  | search
  | substitute
  | findAll
  | split
  deriving DecidableEq, Repr

namespace SearchFunction

/-- All functions on patterns. -/
def all : List SearchFunction :=
  [.matchStart, .matchAll, .search, .substitute, .findAll, .split]

/-- The name of a function. -/
def name : SearchFunction → String
  | .matchStart => "match"
  | .matchAll => "fullmatch"
  | .search => "search"
  | .substitute => "sub"
  | .findAll => "findall"
  | .split => "split"

/-- The regular expression of a text of at most a thousand bytes. -/
def compiled (pattern : String) : Except Error Regex :=
  if pattern.utf8ByteSize > 1000 then .error (.eval .patternTooLong)
  else match Regex.ofText? pattern.toList with
    | some regex => .ok regex
    | none => .error (.eval .invalidPattern)

/-- The text of the first match of a pattern. -/
def firstMatch (pattern text : String) : Except Error Value :=
  return ((← compiled pattern).search? text).elim .null Value.str

/-! ### Replacements -/

/-- A part of a replacement: text, or the text of a group. -/
inductive Piece where
  | plain (c : Char)
  | group (reference : List Char)
  deriving DecidableEq, Repr

/-- The name in a reference `\g<name>`, after its backslash, and the text after it. -/
def namedReference? : List Char → Option (List Char × List Char)
  | 'g' :: '<' :: text =>
    match text.takeWhile Unicode.isWord, text.dropWhile Unicode.isWord with
    | c :: name, '>' :: rest => some (c :: name, rest)
    | _, _ => none
  | _ => none

/-- The parts of a replacement. Every part takes a character, so the length bounds their number. -/
def pieces (fuel : Nat) (replacement : List Char) : List Piece :=
  match fuel, replacement with
  | 0, _ => []
  | _, [] => []
  | fuel + 1, '\\' :: rest =>
    let digits := rest.takeWhile Unicode.isDecimalDigit
    if !digits.isEmpty then
      .group digits :: pieces fuel (rest.dropWhile Unicode.isDecimalDigit)
    else match namedReference? rest with
      | some (name, rest) => .group name :: pieces fuel rest
      | none => .plain '\\' :: pieces fuel rest
  | fuel + 1, c :: rest => .plain c :: pieces fuel rest

/-- The number of the group that a reference means: by number, or by name. -/
def groupIndex? (regex : Regex) (reference : List Char) : Option Nat :=
  match Number.naturalOfDigits? 10 reference with
  | some index => if index < 0x10000000000000000 then some index else none
  | none => regex.groupNamed? (String.ofList reference)

/-- The text that a part of a replacement stands for; a group that is not there is empty. -/
def expand (regex : Regex) (text : Array Char) (found : Regex.Match) : Piece → String
  | .plain c => String.singleton c
  | .group reference =>
    ((groupIndex? regex reference).map (found.groupText text)).getD ""

/-- A text with matches replaced. -/
def substituted (regex : Regex) (replacement : List Char) (text : String) (limit : Nat) :
    String :=
  let parts := pieces replacement.length replacement
  regex.replace limit (fun chars found => String.join (parts.map (expand regex chars found))) text

/-- All matches of a text: the whole match, the only group, or the list of the groups. -/
def allMatches (regex : Regex) (text : String) : List Value :=
  let chars := text.toList.toArray
  (regex.matchesOf chars).map fun found =>
    match regex.groups.length with
    | 0 => .str (found.groupText chars 0)
    | 1 => .str (found.groupText chars 1)
    | count => .list ((List.range count).map fun i => .str (found.groupText chars (i + 1)))

/-- Applies a function to its arguments. -/
def apply (function : SearchFunction) : List Value → Except Error Value :=
  let name := function.name
  let string := Arguments.text name
  match function with
  | .matchStart => Arguments.two name fun pattern text => do
    let pattern ← string pattern
    firstMatch ("^(?:" ++ pattern ++ ")") (← string text)
  | .matchAll => Arguments.two name fun pattern text => do
    let pattern ← string pattern
    firstMatch ("^(?:" ++ pattern ++ ")$") (← string text)
  | .search => Arguments.two name fun pattern text => do
    let regex ← compiled (← string pattern)
    return (regex.search? (← string text)).elim .null Value.str
  | .substitute => Arguments.threeOrFour name fun pattern replacement text limit => do
    let regex ← compiled (← string pattern)
    let replacement ← Arguments.chars name replacement
    let text ← string text
    let limit ← match limit with
      | some limit => Arguments.integer name limit
      | none => pure 0
    return .str (substituted regex replacement text limit.toNat)
  | .findAll => Arguments.two name fun pattern text => do
    let regex ← compiled (← string pattern)
    return .list (allMatches regex (← string text))
  | .split => Arguments.two name fun pattern text => do
    let regex ← compiled (← string pattern)
    return .list ((regex.split (← string text)).map Value.str)

end SearchFunction

end StreamQuery
