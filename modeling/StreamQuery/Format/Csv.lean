import StreamQuery.Execution.Stream
import StreamQuery.Format.Lines
import StreamQuery.Format.Options
import StreamQuery.Number.Reading
import StreamQuery.Query.Item
import StreamQuery.Text.Search
import StreamQuery.Unicode.Property

/-!
# Delimited fields

Records of fields with a delimiter between them: how bytes are cut into records and fields, what a
sample tells about the columns, and how rows are read and written.
-/

/-!
## Records of delimited fields

Bytes are cut into records and records into fields. A field may be quoted, and then holds
delimiters and line ends; a quote in it is written twice. Empty lines are no records, and the last
record need not be ended.
-/

namespace StreamQuery.Csv

/-- The bytes that divide and quote fields. -/
structure Dialect where
  delimiter : UInt8 := 44
  quote : UInt8 := 34
  deriving DecidableEq

/-- A record of texts. -/
abbrev Record := List String

/-- Where the next byte stands. -/
inductive Place where
  | recordStart
  | fieldStart
  | plain
  | quoted
  | afterQuote
  deriving DecidableEq

/-- What a byte does. -/
inductive Move where
  /-- The byte belongs to the field. -/
  | keep (next : Place)
  | skip (next : Place)
  | endField
  | endRecord

/-- Whether a byte ends a line. -/
def isLineEnd (byte : UInt8) : Bool :=
  byte == lineFeed || byte == carriageReturn

namespace Dialect

/-- What a byte does in a field that is not quoted. -/
def plainMove (dialect : Dialect) (byte : UInt8) : Move :=
  if byte == dialect.delimiter then .endField
  else if isLineEnd byte then .endRecord
  else .keep .plain

/-- What a byte does in a place. -/
def move (dialect : Dialect) (byte : UInt8) : Place → Move
  | .recordStart =>
    if isLineEnd byte then .skip .recordStart
    else if byte == dialect.quote then .skip .quoted
    else dialect.plainMove byte
  | .fieldStart => if byte == dialect.quote then .skip .quoted else dialect.plainMove byte
  | .plain => dialect.plainMove byte
  | .quoted => if byte == dialect.quote then .skip .afterQuote else .keep .quoted
  | .afterQuote => if byte == dialect.quote then .keep .quoted else dialect.plainMove byte

/-- The records of bytes, where `field` and `fields` hold what came before them in the first one,
the latest first. -/
def recordsAfter (dialect : Dialect) (place : Place) (field : Bytes) (fields : List Bytes) :
    Bytes → List (List Bytes)
  | [] => if place = .recordStart then [] else [(field.reverse :: fields).reverse]
  | byte :: rest =>
    match dialect.move byte place with
    | .keep next => dialect.recordsAfter next (byte :: field) fields rest
    | .skip next => dialect.recordsAfter next field fields rest
    | .endField => dialect.recordsAfter .fieldStart [] (field.reverse :: fields) rest
    | .endRecord =>
      (field.reverse :: fields).reverse :: dialect.recordsAfter .recordStart [] [] rest

/-- Bytes without a mark of their encoding at the front. -/
def withoutMark : Bytes → Bytes
  | 0xEF :: 0xBB :: 0xBF :: rest => rest
  | bytes => bytes

/-- The records of bytes. -/
def records (dialect : Dialect) (bytes : Bytes) : List (List Bytes) :=
  dialect.recordsAfter .recordStart [] [] (withoutMark bytes)

/-- The record with the texts of fields, if all of them are texts. -/
def recordOfFields (fields : List Bytes) : Except FormatFault Record :=
  match fields.mapM Bytes.text? with
  | some record => .ok record
  | none => .error .csv

/-- The records of an input. -/
def read (dialect : Dialect) (input : Input) : List (Except FormatFault Record) :=
  (dialect.records input.bytes).map recordOfFields ++
    input.failure.toList.map fun _ => .error .csv

end Dialect

/-!
## Columns of a sample

What the first records tell about the columns: the kind of value that all cells of a column can be
read as, and whether the first record looks like a header.
-/

/-- What a cell can be read as, or all cells of a column. A wider kind comes later. -/
inductive CellKind where
  | blank
  | int
  | float
  | text
  deriving DecidableEq, Repr

/-- A cell without the blanks around it. -/
def trimmed (cell : String) : List Char :=
  Text.trim Unicode.isWhitespace cell.toList

namespace CellKind

/-- The place of a kind in the order from narrow to wide. -/
def rank : CellKind → Nat
  | .blank => 0
  | .int => 1
  | .float => 2
  | .text => 3

/-- The wider of two kinds. -/
def join (a b : CellKind) : CellKind :=
  if a.rank < b.rank then b else a

/-- The narrowest kind of a cell. -/
def ofCell (cell : String) : CellKind :=
  let content := trimmed cell
  if content.isEmpty then .blank
  else if (Number.readInt64? 10 content).isSome then .int
  else if (Number.readFloat? content).isSome then .float
  else .text

/-- The narrowest kind of all cells. -/
def ofCells (cells : List String) : CellKind :=
  (cells.map ofCell).foldl join .blank

/-- Whether a kind is one of numbers. -/
def isNumeric : CellKind → Bool
  | .int => true
  | .float => true
  | .blank => false
  | .text => false

end CellKind

/-- The cells of a column. Short records have none. -/
def columnCells (records : List Record) (index : Nat) : List String :=
  records.filterMap (·[index]?)

/-- The kinds of the columns of records. -/
def columnKinds (records : List Record) : List CellKind :=
  let width := (records.map List.length).foldl max 0
  (List.range width).map fun index => .ofCells (columnCells records index)

/-- The vote of a column for a header: its first cell differs in kind from the numbers under it, or
in length from texts of the same length. -/
def headerVote (head : String) (cells : List String) : Int :=
  match cells with
  | [] => 0
  | first :: _ => match CellKind.ofCells cells with
    | .blank => 0
    | .text =>
      if cells.all (·.length == first.length) then
        if head.length != first.length then 1 else -1
      else 0
    | _ => if (CellKind.ofCell head).isNumeric then -1 else 1

/-- The votes of columns from an index on. -/
def headerVotes (records : List Record) (index : Nat) : Record → Int
  | [] => 0
  | head :: rest =>
    headerVote head (columnCells records index) + headerVotes records (index + 1) rest

/-- Whether the first of some records looks like a header. -/
def detectsHeader : List Record → Bool
  | [] => false
  | [_] => false
  | first :: rest => headerVotes rest 0 first > 0

/-!
## Reading delimited fields

The first records are a sample: they decide whether the first one is a header, unless the options
do, and the kinds of the columns. All records are then delivered in order, and cells of numeric
columns become numbers, or null when they are blank. A cell that is neither is reported.
-/

/-- How records are read. Without `header` the sample decides. -/
structure ReaderSettings where
  dialect : Dialect := {}
  header : Option Bool := none
  inferKinds : Bool := true
  sampleSize : Nat := 10

/-- Takes the settings of a reader from its options. -/
def ReaderSettings.take : Taking ReaderSettings := do
  let defaults : ReaderSettings := {}
  let delimiter ← Options.takeByte "delimiter"
  let quote ← Options.takeByte "quotechar"
  let header ← Options.takeBool "header"
  let inferKinds ← Options.takeBool "infer_dtypes"
  let sampleSize ← Options.takeNat "sample_size"
  return {
    dialect :=
      { delimiter := delimiter.getD defaults.dialect.delimiter
        quote := quote.getD defaults.dialect.quote }
    header := header
    inferKinds := inferKinds.getD defaults.inferKinds
    sampleSize := sampleSize.getD defaults.sampleSize }

/-! ### Cells -/

/-- The value of a cell of numbers, given its reading, and the warning if it is none. -/
def numericCell (cell : String) (target : Kind) (read? : List Char → Option Value) :
    Value × Option Warning :=
  let content := trimmed cell
  if content.isEmpty then (.null, none)
  else match read? content with
    | some value => (value, none)
    | none => (.null, some (.unconvertible (.str cell) target))

/-- The value of a cell in a column of a kind, with a warning. -/
def cellValue (kind : CellKind) (cell : String) : Value × Option Warning :=
  match kind with
  | .int => numericCell cell .int fun content => (Number.readInt64? 10 content).map .ofInt
  | .float => numericCell cell .float fun content => (Number.readFloat? content).map .ofFloat
  | .text => (.str cell, none)
  | .blank => (.str cell, none)

/-- The values of a record; columns beyond the kinds hold texts. -/
def cellValues (kinds : List CellKind) : Record → List (Value × Option Warning)
  | [] => []
  | cell :: rest => cellValue (kinds.headD .text) cell :: cellValues kinds.tail rest

/-! ### Sources -/

/-- The row of a record. -/
def pullRow (kinds : List CellKind) : Except FormatFault Record → Pull
  | .ok record =>
    let cells := cellValues kinds record
    ⟨cells.filterMap (·.2), .ok (.row (cells.map (·.1)))⟩
  | .error fault => ⟨[], .error (.format fault)⟩

/-- The header of a record: its cells as identifiers. -/
def pullHeader (record : Record) : Pull :=
  ⟨[], .ok (.header (record.map fun cell =>
    String.ofList (Selection.identifier cell.toList)))⟩

/-- A reader: the kinds of the columns, the header until it is delivered, the records of the sample
that are not delivered yet, and the records behind the sample. -/
structure Reader where
  kinds : List CellKind
  header : Option Record
  sample : List Record
  unread : List (Except FormatFault Record)

namespace Reader

/-- What comes next, and the reader after it: the header, then the sample, then what is unread. -/
def next? (reader : Reader) : Option (Pull × Reader) :=
  match reader.header, reader.sample, reader.unread with
  | some header, _, _ => some (pullHeader header, { reader with header := none })
  | none, record :: rest, _ =>
    some (pullRow reader.kinds (.ok record), { reader with sample := rest })
  | none, [], record :: rest => some (pullRow reader.kinds record, { reader with unread := rest })
  | none, [], [] => none

/-- The number of records that are left. -/
def left (reader : Reader) : Nat :=
  reader.header.toList.length + reader.sample.length + reader.unread.length

theorem left_lt_of_next? {reader after : Reader} {pull : Pull}
    (h : reader.next? = some (pull, after)) : after.left < reader.left := by
  unfold next? at h
  split at h <;> cases h <;> simp [left, *]

/-- All that is left, read to the end. -/
def drain (reader : Reader) : Source :=
  match _h : reader.next? with
  | some (pull, after) => pull :: after.drain
  | none => []
termination_by reader.left
decreasing_by exact left_lt_of_next? _h

end Reader

/-- The first records, if all of them can be read, and the records behind them. -/
def takeSample : Nat → List (Except FormatFault Record) →
    Except FormatFault (List Record × List (Except FormatFault Record))
  | 0, records => .ok ([], records)
  | _ + 1, [] => .ok ([], [])
  | count + 1, record :: records => do
    let record ← record
    let (sample, unread) ← takeSample count records
    return (record :: sample, unread)

namespace ReaderSettings

/-- A reader of records that has taken its sample. -/
def reader (settings : ReaderSettings) (records : List (Except FormatFault Record)) :
    Except FormatFault Reader := do
  let (taken, unread) ← takeSample (max settings.sampleSize 1) records
  let hasHeader := settings.header.getD (detectsHeader taken)
  let sample := if hasHeader then taken.tail else taken
  return {
    kinds := if settings.inferKinds then columnKinds sample else []
    header := if hasHeader then taken.head? else none
    sample := sample
    unread := unread }

/-- The source of an input. -/
def source (settings : ReaderSettings) (input : Input) : Except FormatFault Source := do
  return (← settings.reader (settings.dialect.read input)).drain

end ReaderSettings

/-!
## Writing delimited fields

A field is quoted if it holds the delimiter, a quote or a line end; a quote in it is written
twice. A record whose fields are all empty would look like an empty line, so an empty record is
written as a pair of quotes.
-/

/-- The quote of written fields. -/
def writtenQuote : Char := '"'

/-- How records are written. -/
structure WriterSettings where
  header : Bool := true
  delimiter : Char := ','

/-- Takes the settings of a writer from its options. -/
def WriterSettings.take : Taking WriterSettings := do
  let defaults : WriterSettings := {}
  let header ← Options.takeBool "header"
  let delimiter ← Options.takeByte "delimiter"
  return {
    header := header.getD defaults.header
    delimiter := (delimiter.map fun byte => Char.ofNat byte.toNat).getD defaults.delimiter }

/-- Whether a field with a character is quoted. -/
def needsQuote (delimiter c : Char) : Bool :=
  c == delimiter || c == writtenQuote || c == '\n' || c == '\r'

/-- A field as it is written. -/
def writtenField (delimiter : Char) (field : String) : List Char :=
  let content := field.toList
  if content.any (needsQuote delimiter) then
    writtenQuote :: Text.replace [writtenQuote] [writtenQuote, writtenQuote] content ++
      [writtenQuote]
  else content

/-- A record as it is written. -/
def writtenRecord (delimiter : Char) (fields : List String) : List Char :=
  let joined := [delimiter].intercalate (fields.map (writtenField delimiter))
  (if joined.isEmpty then [writtenQuote, writtenQuote] else joined) ++ ['\n']

/-- What is written because of an event. -/
def WriterSettings.write (settings : WriterSettings) : Event → String
  | .header columns =>
    if settings.header then String.ofList (writtenRecord settings.delimiter columns) else ""
  | .row values =>
    String.ofList (writtenRecord settings.delimiter (values.map Value.display))
  | .flush => ""

end StreamQuery.Csv
