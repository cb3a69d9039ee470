import StreamQuery.Execution.Stream
import StreamQuery.Format.Options
import StreamQuery.Text.Search

/-!
# Insert statements

Rows are written as `INSERT` statements of up to a fixed number of rows. In a quoted name or text
its quote is written twice.
-/

namespace StreamQuery.Sql

/-- How rows are written. -/
structure Settings where
  table : String := "table_name"
  chunkSize : Nat := 1000
  positive : 0 < chunkSize := by decide

/-- Takes the settings from options; a chunk has at least one row. -/
def Settings.take : Taking Settings := do
  let defaults : Settings := {}
  let table ← Options.takeText "table"
  let chunkSize ← Options.takeNat "chunk_size"
  return {
    table := table.getD defaults.table
    chunkSize := max (chunkSize.getD defaults.chunkSize) 1
    positive := by omega }

/-- A text in quotes. -/
def quoted (quote : Char) (text : String) : String :=
  String.ofList (quote :: Text.replace [quote] [quote, quote] text.toList ++ [quote])

/-- A name in a statement. -/
def name (text : String) : String :=
  quoted '"' text

/-- A value in a statement. Lists and objects are texts. -/
def literal : Value → String
  | .null => "NULL"
  | .bool true => "TRUE"
  | .bool false => "FALSE"
  | .int n => (Value.int n).toJson
  | .float x => (Value.float x).toJson
  | .str s => quoted '\'' s
  | .list items => quoted '\'' (Value.list items).toJson
  | .object entries => quoted '\'' (Value.object entries).toJson

/-- A row in a statement. -/
def tuple (values : List Value) : String :=
  "(" ++ ",".intercalate (values.map literal) ++ ")"

/-- A statement up to its rows. -/
def statementHead (table : String) (columns : List String) : String :=
  "INSERT INTO " ++ name table ++ "(" ++ ",".intercalate (columns.map name) ++ ")"

/-- A statement. -/
def statement (head : String) (rows : List String) : String :=
  head ++ " VALUES " ++ ",".intercalate rows ++ ";\n"

/-- The rows that wait for a full chunk, the latest first. -/
structure State where
  settings : Settings := {}
  head : String := ""
  latest : List String := []

/-- The statement of the rows that wait. -/
def State.release (state : State) : String × State :=
  if state.latest.isEmpty then ("", state)
  else (statement state.head state.latest.reverse, { state with latest := [] })

/-- What is written because of an event, and the state after it. -/
def State.write (state : State) : Event → String × State
  | .header columns =>
    ("", { state with head := statementHead state.settings.table columns })
  | .row values =>
    let state := { state with latest := tuple values :: state.latest }
    if state.settings.chunkSize ≤ state.latest.length then state.release else ("", state)
  | .flush => state.release

end StreamQuery.Sql
