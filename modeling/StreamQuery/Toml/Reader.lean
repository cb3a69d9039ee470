import StreamQuery.Toml.Scalar
import StreamQuery.Toml.Table

/-!
# Reading TOML

A document is a sequence of statements, each on a line: values with keys, and headers of tables
that the values after them belong to. Keys have fewer than 80 parts, and lists and tables within a
value nest less than 80 levels deep.
-/

namespace StreamQuery.Toml

/-! ### Gaps -/

/-- A text after blanks, line ends and comments; `inComment` tells whether it begins within a
comment. -/
def skipGaps (inComment : Bool) : List Char → List Char
  | '\r' :: '\n' :: rest => skipGaps false rest
  | '\n' :: rest => skipGaps false rest
  | c :: rest =>
    if inComment then if isLineChar c then skipGaps true rest else c :: rest
    else if isBlank c then skipGaps false rest
    else if c == '#' then skipGaps true rest
    else c :: rest
  | [] => []

/-- A text after the end of its line, before which a comment may stand. -/
def endLine? (text : List Char) : Option (List Char) :=
  let rest := match text.dropWhile isBlank with
    | '#' :: comment => comment.dropWhile isLineChar
    | rest => rest
  match rest with
  | [] => some []
  | '\n' :: rest => some rest
  | '\r' :: '\n' :: rest => some rest
  | _ => none

/-! ### Keys -/

/-- Characters of keys without quotes. -/
def isKeyChar (c : Char) : Bool :=
  c.isAlphanum || c == '_' || c == '-'

/-- A part of a key, and the rest. -/
def readKeyPart? (text : List Char) : Option (String × List Char) :=
  match text with
  | '"' :: rest => do
    let (content, rest) ← readBasic? (rest.length + 1) rest
    some (String.ofList content, rest)
  | '\'' :: rest => do
    let (content, rest) ← readLiteral? rest
    some (String.ofList content, rest)
  | _ =>
    let name := text.takeWhile isKeyChar
    if name.isEmpty then none else some (String.ofList name, text.drop name.length)

/-- The parts of a key, with blanks around them, and the rest. -/
def readKeyParts? : Nat → List Char → Option (List String × List Char)
  | 0, _ => none
  | fuel + 1, text => do
    let (part, rest) ← readKeyPart? (text.dropWhile isBlank)
    match rest.dropWhile isBlank with
    | '.' :: rest =>
      let (parts, rest) ← readKeyParts? fuel rest
      some (part :: parts, rest)
    | rest => some ([part], rest)

/-- The number of levels that keys and values stay below. -/
def levelLimit : Nat := 80

/-- A key, and the rest. -/
def readKey? (text : List Char) : Option (List String × List Char) :=
  readKeyParts? (levelLimit - 1) text

/-! ### Values -/

/-- A value that holds no other ones, and the rest. -/
def readScalar? (text : List Char) : Option (Value × List Char) :=
  match text with
  | 't' :: 'r' :: 'u' :: 'e' :: rest => some (.bool true, rest)
  | 'f' :: 'a' :: 'l' :: 's' :: 'e' :: rest => some (.bool false, rest)
  | c :: _ =>
    if c == '"' || c == '\'' then do
      let (content, rest) ← readString? text
      some (.str (String.ofList content), rest)
    else match readDateTime? text with
      | some found => some found
      | none => readNumber? text
  | [] => none

mutual

/-- A value, which may nest `depth` levels deep, and the rest. -/
def readValue? (depth : Nat) : Nat → List Char → Option (Value × List Char)
  | 0, _ => none
  | fuel + 1, text =>
    match text, depth with
    | '[' :: rest, depth + 1 => do
      let (items, rest) ← readItems? depth fuel (skipGaps false rest)
      some (.list items, rest)
    | '\x7b' :: rest, depth + 1 =>
      match rest.dropWhile isBlank with
      | '\x7d' :: rest => some (.object [], rest)
      | rest => do
        let (entries, rest) ← readEntries? depth fuel rest
        some (.object (entryValues (← Table.addValues entries [])), rest)
    | text, _ => readScalar? text

/-- The items of a list from a gap's end to its closing bracket, and the rest. -/
def readItems? (depth : Nat) : Nat → List Char → Option (List Value × List Char)
  | 0, _ => none
  | fuel + 1, text =>
    match text with
    | ']' :: rest => some ([], rest)
    | text => do
      let (value, rest) ← readValue? depth fuel text
      match skipGaps false rest with
      | ',' :: rest =>
        let (items, rest) ← readItems? depth fuel (skipGaps false rest)
        some (value :: items, rest)
      | ']' :: rest => some ([value], rest)
      | _ => none

/-- The entries of a table within a value up to its closing brace, and the rest. -/
def readEntries? (depth : Nat) :
    Nat → List Char → Option (List (List String × Value) × List Char)
  | 0, _ => none
  | fuel + 1, text => do
    let (key, rest) ← readKey? text
    match rest with
    | '=' :: rest =>
      let (value, rest) ← readValue? depth fuel (rest.dropWhile isBlank)
      match rest.dropWhile isBlank with
      | ',' :: rest =>
        let (entries, rest) ← readEntries? depth fuel rest
        some ((key, value) :: entries, rest)
      | '\x7d' :: rest => some ([(key, value)], rest)
      | _ => none
    | _ => none

end

/-! ### Documents -/

/-- A statement of a document. -/
inductive Statement where
  | entry (path : List String) (value : Value)
  | table (path : List String)
  | element (path : List String)

/-- The statement at the front of a line, and the text after the line. -/
def readStatement? (text : List Char) : Option (Statement × List Char) :=
  match text with
  | '[' :: '[' :: rest => do
    let (path, rest) ← readKey? rest
    match rest with
    | ']' :: ']' :: rest => some (.element path, ← endLine? rest)
    | _ => none
  | '[' :: rest => do
    let (path, rest) ← readKey? rest
    match rest with
    | ']' :: rest => some (.table path, ← endLine? rest)
    | _ => none
  | text => do
    let (path, rest) ← readKey? text
    match rest with
    | '=' :: rest =>
      let (value, rest) ←
        readValue? (levelLimit - 1) (rest.length + 1) (rest.dropWhile isBlank)
      some (.entry path value, ← endLine? rest)
    | _ => none

/-- The statements of a text; `fuel` bounds its length. -/
def readStatements? : Nat → List Char → Option (List Statement)
  | 0, _ => none
  | fuel + 1, text =>
    match skipGaps false text with
    | [] => some []
    | text => do
      let (statement, rest) ← readStatement? text
      some (statement :: (← readStatements? fuel rest))

/-- The values that stand before the next header. -/
def leadingEntries : List Statement → List (List String × Value)
  | .entry path value :: rest => (path, value) :: leadingEntries rest
  | _ => []

/-- Fills a table by statements; each header takes the values after it. -/
def fill (table : Table) : List Statement → Option Table
  | [] => some table
  | .entry _ _ :: rest => fill table rest
  | .table path :: rest => do fill (← table.addTable path (leadingEntries rest)) rest
  | .element path :: rest => do fill (← table.addElement path (leadingEntries rest)) rest

/-- A text without a mark of its encoding at the front. -/
def withoutMark : List Char → List Char
  | '\ufeff' :: rest => rest
  | text => text

/-- The entries of a document. -/
def read? (text : String) : Option (List (String × Value)) := do
  let text := withoutMark text.toList
  let statements ← readStatements? (text.length + 1) text
  let table ← Table.addValues (leadingEntries statements) []
  return entryValues (← fill table statements)

end StreamQuery.Toml
