import StreamQuery.Error
import StreamQuery.Execution.Stream
import StreamQuery.Json.Reader
import StreamQuery.Query.Binding
import StreamQuery.Text.Search

/-!
# Inputs and lines

What a reader reads from, and the two formats that have one value on each line: texts, and
documents of JSON.
-/

/-!
## Inputs

What a reader reads from: bytes, and what stops the reading after them, if anything does before
the end. Texts are encoded in UTF-8, and a line of bytes that encodes none is a fault of its own.
-/

namespace StreamQuery

/-- Bytes of a file. -/
abbrev Bytes := List UInt8

/-- The line feed. -/
def lineFeed : UInt8 := 10

/-- The carriage return. -/
def carriageReturn : UInt8 := 13

namespace Bytes

/-- The bytes of a text. -/
def ofText (text : String) : Bytes :=
  text.toUTF8.toList

/-- The text that bytes encode, if they encode one. -/
def text? (bytes : Bytes) : Option String :=
  String.fromUTF8? ⟨bytes.toArray⟩

/-- A finished line without its carriage return; the latest byte comes first. -/
def finishLine (line : Bytes) : Bytes :=
  (if line.head? == some carriageReturn then line.tail else line).reverse

/-- The lines of bytes, where `line` holds what came before them in the first one, the latest byte
first. -/
def linesAfter (line : Bytes) : Bytes → List Bytes
  | [] => if line.isEmpty then [] else [line.reverse]
  | byte :: rest =>
    if byte == lineFeed then finishLine line :: linesAfter [] rest
    else linesAfter (byte :: line) rest

/-- The lines of bytes, without the line feeds that end them and a carriage return before those.
The last line need not be ended. -/
def lines (bytes : Bytes) : List Bytes :=
  linesAfter [] bytes

end Bytes

/-- What can be read from a file. -/
structure Input where
  bytes : Bytes
  failure : Option FileFault := none

namespace Input

/-- The lines of an input as texts, with the fault that ends them, if one does. -/
def lines (input : Input) : List (Except FileFault String) :=
  (input.bytes.lines.map fun line => match line.text? with
    | some text => .ok text
    | none => .error .notText) ++ input.failure.toList.map .error

end Input

end StreamQuery

/-!
## Lines of text

One row per line, in a single column and without a header.
-/

namespace StreamQuery.PlainText

/-- The row of a line, without the carriage returns at its end. -/
def pullLine : Except FileFault String → Pull
  | .ok line => ⟨[], .ok (.row [.str (String.ofList (Text.trimEnd (· == '\r') line.toList))])⟩
  | .error fault => ⟨[], .error (.format (.files fault))⟩

/-- The source of an input. -/
def source (input : Input) : Source :=
  input.lines.map pullLine

end StreamQuery.PlainText

/-!
## Lines of JSON

One document per line. They are read into a single column, and rows are written as objects by
column name, except that the only column of what was read is written as it is.
-/

namespace StreamQuery.JsonLines

/-- The name of the column of documents. -/
def columnName : String := "json"

/-! ### Reading -/

/-- What a line gives: nothing if it is blank, else a row of its document. -/
def pullLine? (number : Nat) : Except FileFault String → Option Pull
  | .error fault => some ⟨[], .error (.format (.files fault))⟩
  | .ok line =>
    if line.toList.all Unicode.isWhitespace then none
    else match Json.read? line with
      | some document => some ⟨[], .ok (.row [document])⟩
      | none => some ⟨[], .error (.format (.json number))⟩

/-- What lines give, where `number` is that of the first one. -/
def pullLines (number : Nat) : List (Except FileFault String) → Source
  | [] => []
  | line :: rest => (pullLine? number line).toList ++ pullLines (number + 1) rest

/-- The source of an input. -/
def source (input : Input) : Source :=
  ⟨[], .ok (.header [columnName])⟩ :: pullLines 1 input.lines

/-! ### Writing -/

/-- The document of a row: its only value if that is an object in a column without a name of its
own, else an object of the values by column name. -/
def document (columns : List String) (values : List Value) : Value :=
  let keyed := Value.object (insertEntries [] (columns.zip values))
  match columns, values with
  | [name], [.object entries] =>
    if name == columnName || name == defaultColumnName 0 then .object entries else keyed
  | _, _ => keyed

/-- What is written because of an event, and the names of the columns after it. -/
def write (columns : List String) : Event → String × List String
  | .header names => ("", names)
  | .row values => ((document columns values).toJson ++ "\n", columns)
  | .flush => ("", columns)

end StreamQuery.JsonLines
