import StreamQuery.Unicode.PropertyQuery

/-!
# Written forms of patterns

A pattern as it is written, before the flags in force at each place give its parts their meaning.
The nesting of a form counts what encloses its parts, and is limited.
-/

namespace StreamQuery.Pattern

/-- The flags that a pattern can set and clear. -/
inductive Flag where
  | ignoreCase
  | multiLine
  | dotAll
  | swapGreed
  | unicode
  | verbose
  | crlf
  deriving DecidableEq, Repr

/-- Flags set or cleared, in the order written. -/
abbrev FlagChange := List (Flag × Bool)

/-- The flags in force at a place of a pattern that decide what its parts mean. -/
structure Flags where
  ignoreCase : Bool := false
  multiLine : Bool := false
  dotAll : Bool := false
  swapGreed : Bool := false
  unicode : Bool := true
  crlf : Bool := false
  deriving DecidableEq, Repr

namespace Flags

/-- One flag set or cleared. The verbose flag means nothing once a pattern has been read. -/
def set (flags : Flags) (flag : Flag) (value : Bool) : Flags :=
  match flag with
  | .ignoreCase => { flags with ignoreCase := value }
  | .multiLine => { flags with multiLine := value }
  | .dotAll => { flags with dotAll := value }
  | .swapGreed => { flags with swapGreed := value }
  | .unicode => { flags with unicode := value }
  | .verbose => flags
  | .crlf => { flags with crlf := value }

/-- The flags after a change. -/
def after (flags : Flags) (change : FlagChange) : Flags :=
  change.foldl (fun flags (flag, value) => flags.set flag value) flags

end Flags

/-- The classes named by a letter after a backslash. -/
inductive LetterClass where
  | digit
  | space
  | word
  deriving DecidableEq, Repr

/-- The classes of ASCII characters named inside brackets. -/
inductive AsciiClass where
  | alnum
  | alpha
  | ascii
  | blank
  | cntrl
  | digit
  | graph
  | lower
  | print
  | punct
  | space
  | upper
  | word
  | xdigit
  deriving DecidableEq, Repr

namespace AsciiClass

/-- All classes of ASCII characters. -/
def all : List AsciiClass :=
  [alnum, alpha, ascii, blank, cntrl, digit, graph, lower, print, punct, space, upper, word, xdigit]

/-- The name of a class. -/
def name : AsciiClass → String
  | alnum => "alnum"
  | alpha => "alpha"
  | ascii => "ascii"
  | blank => "blank"
  | cntrl => "cntrl"
  | digit => "digit"
  | graph => "graph"
  | lower => "lower"
  | print => "print"
  | punct => "punct"
  | space => "space"
  | upper => "upper"
  | word => "word"
  | xdigit => "xdigit"

/-- The class of a name. -/
def ofName? (name : String) : Option AsciiClass :=
  all.find? (·.name == name)

end AsciiClass

/-- The conditions on positions as they are written. -/
inductive Anchor where
  | caret
  | dollar
  | textStart
  | textEnd
  | wordBoundary
  | noWordBoundary
  | wordStart
  | wordEnd
  | wordStartHalf
  | wordEndHalf
  deriving DecidableEq, Repr

/-- A character that stands for itself. One written as two hexadecimal digits after `\x` is a byte
where patterns are not read as Unicode. -/
structure Literal where
  char : Char
  isByte : Bool
  deriving DecidableEq, Repr

/-- The operators between sets of characters. -/
inductive SetOperator where
  | intersection
  | difference
  | symmetricDifference
  deriving DecidableEq, Repr

/-- The inside of brackets as it is written. -/
inductive ClassForm where
  | empty
  | literal (literal : Literal)
  | range (first last : Literal)
  | ascii (kind : AsciiClass) (negated : Bool)
  | letter (kind : LetterClass) (negated : Bool)
  | property (query : Unicode.PropertyQuery) (negated : Bool)
  | bracket (negated : Bool) (inner : ClassForm)
  | union (items : List ClassForm)
  | operation (operator : SetOperator) (left right : ClassForm)

/-- A pattern as it is written. -/
inductive Form where
  | empty
  | setFlags (change : FlagChange)
  | literal (literal : Literal)
  | dot
  | anchor (anchor : Anchor)
  | letter (kind : LetterClass) (negated : Bool)
  | property (query : Unicode.PropertyQuery) (negated : Bool)
  | bracket (negated : Bool) (inner : ClassForm)
  | repeated (inner : Form) (least : Nat) (most : Option Nat) (greedy : Bool)
  | group (index : Nat) (name : Option String) (inner : Form)
  | flagged (change : FlagChange) (inner : Form)
  | sequence (parts : List Form)
  | choice (branches : List Form)

namespace ClassForm

/-- The form of the items written next to each other. -/
def ofItems : List ClassForm → ClassForm
  | [] => .empty
  | [item] => item
  | items => .union items

mutual

/-- How deep a form is nested. -/
def nesting : ClassForm → Nat
  | .bracket _ inner => inner.nesting + 1
  | .union items => nestingOfAll items + 1
  | .operation _ left right => max left.nesting right.nesting + 1
  | .empty | .literal _ | .range _ _ | .ascii _ _ | .letter _ _ | .property _ _ => 0
termination_by structural form => form

/-- How deep the deepest of some forms is nested. -/
def nestingOfAll : List ClassForm → Nat
  | [] => 0
  | item :: rest => max item.nesting (nestingOfAll rest)
termination_by structural items => items

end

end ClassForm

namespace Form

/-- The form of parts written one after the other. -/
def ofParts : List Form → Form
  | [] => .empty
  | [part] => part
  | parts => .sequence parts

/-- The form of branches. -/
def ofBranches : List Form → Form
  | [] => .empty
  | [branch] => branch
  | branches => .choice branches

mutual

/-- How deep a form is nested. -/
def nesting : Form → Nat
  | .bracket _ inner => inner.nesting + 1
  | .repeated inner _ _ _ => inner.nesting + 1
  | .group _ _ inner => inner.nesting + 1
  | .flagged _ inner => inner.nesting + 1
  | .sequence parts => nestingOfAll parts + 1
  | .choice branches => nestingOfAll branches + 1
  | .empty | .setFlags _ | .literal _ | .dot | .anchor _ | .letter _ _ | .property _ _ => 0
termination_by structural form => form

/-- How deep the deepest of some forms is nested. -/
def nestingOfAll : List Form → Nat
  | [] => 0
  | part :: rest => max part.nesting (nestingOfAll rest)
termination_by structural parts => parts

end

/-- The deepest nesting of an accepted pattern. -/
def nestingLimit : Nat := 250

end Form

end StreamQuery.Pattern
