import StreamQuery.Number.Reading
import StreamQuery.Query.Literal
import StreamQuery.Query.Shorthand
import StreamQuery.Text.Search

/-!
# Items of clauses

How the clauses of a query are read that have structure: lists of items, output columns, keys of an
ordering, sources and targets.
-/

/-!
## Items of clauses

Clauses that list several items, keywords inside them, and column numbers.
-/

namespace StreamQuery.Item

/-- Blanks removed at both ends. -/
def trim (text : List Char) : List Char :=
  Text.trim Unicode.isWhitespace text

/-- The nesting of brackets after a character. -/
def nesting (depth : Int) (c : Char) : Int :=
  if c == '(' || c == '\x7b' || c == '[' then depth + 1
  else if c == ')' || c == '\x7d' || c == ']' then depth - 1
  else depth

/-- A text cut at commas outside of brackets and quotes, where `quote` is the quote that is open
and `latest` the item so far, its latest character first. -/
def splitFrom (depth : Int) (quote : Option Char) (latest : List Char) :
    List Char → List (List Char)
  | [] => [trim latest.reverse]
  | c :: rest =>
    match quote with
    | some q => splitFrom depth (if c == q then none else some q) (c :: latest) rest
    | none =>
      if c == ',' && depth == 0 then trim latest.reverse :: splitFrom depth none [] rest
      else
        splitFrom (nesting depth c) (if Literal.isQuote c then some c else none) (c :: latest)
          rest

/-- The items of a clause, separated by commas outside of brackets and quotes. -/
def split (text : List Char) : List (List Char) :=
  splitFrom 0 none [] text

/-- Whether two characters are the same letter, in any case. -/
def sameLetter (c d : Char) : Bool :=
  Unicode.fold c.toNat == Unicode.fold d.toNat

/-- Whether two texts have the same letters, in any case. -/
def sameLetters : List Char → List Char → Bool
  | [], [] => true
  | c :: left, d :: right => sameLetter c d && sameLetters left right
  | _, _ => false

/-- The text after a keyword and at least one blank, with all blanks removed. -/
def dropKeyword? (keyword text : List Char) : Option (List Char) :=
  if sameLetters keyword (text.take keyword.length) then
    match text.drop keyword.length with
    | c :: rest =>
      if Unicode.isWhitespace c then some (rest.dropWhile Unicode.isWhitespace) else none
    | [] => none
  else none

/-- A keyword at the end of a text after at least one blank, and the text before the blanks. -/
def splitLastKeyword? (keyword text : List Char) : Option (List Char × List Char) :=
  let before := text.take (text.length - keyword.length)
  let found := text.drop (text.length - keyword.length)
  if sameLetters keyword found && before.getLast?.any Unicode.isWhitespace then
    some (Text.trimEnd Unicode.isWhitespace before, found)
  else none

/-- The first keyword between blanks: the text before and the text after it. -/
def splitAtKeyword? (keyword : List Char) : List Char → Option (List Char × List Char)
  | [] => none
  | c :: rest =>
    let after :=
      if Unicode.isWhitespace c then dropKeyword? keyword (rest.dropWhile Unicode.isWhitespace)
      else none
    match after with
    | some after => some ([], after)
    | none => (splitAtKeyword? keyword rest).map fun (before, after) => (c :: before, after)

/-- The column that an item means if it is a number; numbers begin with one. -/
def columnNumber? (clause : Clause) (item : List Char) : Except SemanticFault (Option Nat) :=
  match Number.readInt64? 10 (trim item) with
  | none => .ok none
  | some number =>
    if 1 ≤ number then .ok (some (number - 1).toNat) else .error (.columnNumber clause number)

/-- The words of a text that a parenthesis follows, possibly after blanks, where `latest` is the
word being read, its latest character first. -/
def calledFrom (latest : List Char) : List Char → List (List Char)
  | [] => []
  | c :: rest =>
    if Unicode.isWord c then calledFrom (c :: latest) rest
    else
      let opens := ((c :: rest).dropWhile Unicode.isWhitespace).head? == some '('
      if opens && !latest.isEmpty then latest.reverse :: calledFrom [] rest
      else calledFrom [] rest

/-- The names of the functions that a text seems to call. -/
def calledNames (text : List Char) : List String :=
  (calledFrom [] text).map String.ofList

end StreamQuery.Item

/-!
## Output columns

The `SELECT` clause: its modifiers, its items and the names of the output columns. A column
without a name of its own is named after its expression.
-/

namespace StreamQuery

/-- An item of `SELECT`: all input columns, or an expression with the name of its column. -/
inductive SelectItem where
  | star
  | column (name expression : String)
  deriving DecidableEq, Repr

/-- The `SELECT` clause. -/
structure Selection where
  items : List SelectItem
  distinct : Bool
  partials : Bool
  deriving DecidableEq, Repr

namespace Selection

/-- Characters of identifiers. -/
def isIdentifierChar (c : Char) : Bool :=
  c.isAlphanum || c == '_'

/-- A text as an identifier: runs of other characters inside it become underscores, and one is put
in front unless a letter or an underscore stands there. -/
def identifier (text : List Char) : List Char :=
  let cleaned := text.map fun c =>
    if isIdentifierChar c || Unicode.isWhitespace c then c else ' '
  let joined := ['_'].intercalate (Text.wordsBy Unicode.isWhitespace cleaned)
  if joined.head?.any fun c => c.isAlpha || c == '_' then joined else '_' :: joined

/-- The length of an access to the whole row at the front of a text, up to its bracket or dot. -/
def rowAccessLength (text : List Char) : Nat :=
  let found := ["json[", "json.", "row[", "row."].find? fun access =>
    access.toList.isPrefixOf text
  (found.map String.length).getD 0

/-- A text without its accesses to the whole row; `previous` is the character before it, and the
first `skip` characters belong to such an access. -/
def dropRowAccess (previous : Option Char) (skip : Nat) : List Char → List Char
  | [] => []
  | c :: rest =>
    match skip with
    | skip + 1 => dropRowAccess (some c) skip rest
    | 0 =>
      match if previous.any Unicode.isWord then 0 else rowAccessLength (c :: rest) with
      | 0 => c :: dropRowAccess (some c) 0 rest
      | length + 1 => dropRowAccess (some c) length rest

/-- The name of the column of an expression. -/
def columnName (literals : LiteralTable) (expression : List Char) : List Char :=
  identifier (literals.restore false (dropRowAccess none 0 expression))

/-- One item of the clause. -/
def item (literals : LiteralTable) (text : List Char) : SelectItem :=
  let (expression, given) := match Item.splitAtKeyword? ['A', 'S'] text with
    | some (expression, given) => (expression, some (Item.trim given))
    | none => (text, none)
  if Item.trim expression == ['*'] then .star
  else
    let expression := Shorthand.expand expression
    let name := match given with
      | some given => literals.restore false given
      | none => columnName literals expression
    .column (String.ofList name) (String.ofList expression)

/-- A modifier at the front of the clause, and the rest. -/
def modifier (keyword text : List Char) : Bool × List Char :=
  match Item.dropKeyword? keyword text with
  | some rest => (true, rest)
  | none => (false, text)

/-- The clause with a text. -/
def ofText (literals : LiteralTable) (text : List Char) : Selection :=
  let (distinct, rest) :=
    modifier "DISTINCT".toList (text.dropWhile Unicode.isWhitespace)
  let (partials, rest) := modifier "PARTIALS".toList rest
  ⟨(Item.split rest).map (item literals), distinct, partials⟩

end Selection

/-- The names of the output columns, given those of the input. -/
def outputColumns (items : List SelectItem) (names : List String) : List String :=
  items.flatMap fun
    | .star => names
    | .column name _ => [name]

/-!
## Ordering keys

The `ORDER BY` clause: expressions or numbers of output columns, each with a direction and a place
for null.
-/

/-- What a key orders by. -/
inductive OrderTarget where
  | expression (text : String)
  | outputColumn (index : Nat)
  deriving DecidableEq, Repr

/-- Where null stands. -/
inductive NullPlace where
  | first
  | last
  deriving DecidableEq, Repr

/-- A key of `ORDER BY`. -/
structure OrderKey where
  target : OrderTarget
  descending : Bool
  nulls : Option NullPlace
  deriving DecidableEq, Repr

namespace OrderKey

/-- Whether null comes first. Unless the key says otherwise it counts as the greatest value. -/
def nullsFirst (key : OrderKey) : Bool :=
  match key.nulls with
  | some .first => true
  | some .last => false
  | none => key.descending

/-- Whether a text is a keyword in ASCII letters of any case. -/
def isKeyword (keyword : String) (text : List Char) : Bool :=
  text.map Char.toLower == keyword.toList.map Char.toLower

/-- The place for null at the end of a key, and the text before it. -/
def splitNulls (text : List Char) : Option NullPlace × List Char :=
  let last := (Item.splitLastKeyword? "FIRST".toList text).or
    (Item.splitLastKeyword? "LAST".toList text)
  match last with
  | none => (none, text)
  | some (before, found) => match Item.splitLastKeyword? "NULLS".toList before with
    | none => (none, text)
    | some (rest, _) => (some (if isKeyword "FIRST" found then .first else .last), rest)

/-- The direction at the end of a key, and the text before it. -/
def splitDirection (text : List Char) : Bool × List Char :=
  let found := (Item.splitLastKeyword? "DESC".toList text).or
    (Item.splitLastKeyword? "ASC".toList text)
  match found with
  | none => (false, text)
  | some (rest, found) => (isKeyword "DESC" found, rest)

/-- The key with a text. -/
def ofText (text : List Char) : Except SemanticFault OrderKey := do
  let (nulls, rest) := splitNulls (Text.trimEnd Unicode.isWhitespace text)
  let (descending, expression) := splitDirection rest
  match ← Item.columnNumber? .orderBy expression with
  | some index => return ⟨.outputColumn index, descending, nulls⟩
  | none =>
    return ⟨.expression (String.ofList (Shorthand.expand expression)), descending, nulls⟩

/-- The keys of a clause. -/
def listOfText (text : List Char) : Except SemanticFault (List OrderKey) :=
  (Item.split text).mapM ofText

end OrderKey

/-!
## Sources and targets

The `FROM` and `TO` clauses: a call of a file format with its arguments, or an expression.
-/

/-- A call of a file format. Arguments are expression texts. -/
structure FormatCall where
  name : String
  arguments : List String
  options : List (String × String)
  deriving DecidableEq, Repr

/-- What a query reads from or writes to. -/
inductive Target where
  | format (call : FormatCall)
  | expression (text : String)
  deriving DecidableEq, Repr

namespace Target

/-- The formats that can be read. -/
def readable : List String := ["CSV", "JSON", "TEXT"]

/-- The formats that can be written. -/
def writable : List String := ["CSV", "JSON", "PRETTY", "SQL", "MEMORY"]

/-- An argument of a call with a name, which an equals sign other than `==` follows. -/
def option? (text : List Char) : Option (String × String) :=
  let name := text.takeWhile Unicode.isWord
  match name, (text.dropWhile Unicode.isWord).dropWhile Unicode.isWhitespace with
  | first :: _, '=' :: c :: rest =>
    if (first.isAlpha || first == '_') && c != '=' then
      some (String.ofList name, String.ofList (Shorthand.expand (c :: rest)))
    else none
  | _, _ => none

/-- The arguments of a call by position and by name. -/
def splitArguments (text : List Char) : List String × List (String × String) :=
  if (Item.trim text).isEmpty then ([], [])
  else
    let parts := Item.split text
    let positional := parts.filter fun part => (option? part).isNone
    (positional.map fun part => String.ofList (Shorthand.expand part), parts.filterMap option?)

/-- The text between the parentheses of a call; a call without them has no arguments. -/
def callText? (text : List Char) : Option (List Char) :=
  match text with
  | [] => some []
  | '(' :: rest => if rest.getLast? == some ')' then some rest.dropLast else none
  | _ => none

/-- The target of a clause, given the formats that it may call. -/
def ofText (formats : List String) (text : List Char) : Target :=
  let text := Item.trim text
  let name := text.takeWhile Unicode.isWord
  let known := formats.contains (String.ofList (Unicode.upperText name))
  match known, callText? (Item.trim (text.dropWhile Unicode.isWord)) with
  | true, some inner =>
    let (arguments, options) := splitArguments inner
    .format ⟨String.ofList name, arguments, options⟩
  | _, _ => .expression (String.ofList (Shorthand.expand text))

end Target

end StreamQuery
