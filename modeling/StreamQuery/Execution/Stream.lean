import StreamQuery.Error
import StreamQuery.Value.Basic

/-!
# Tables, sources and writers

What a query takes its rows from and hands them to.
-/

/-!
## Tables

Rows in memory: the result of a query that is not written to a file, and the source of one that
reads no file.
-/

namespace StreamQuery

/-- Named columns and rows. -/
structure Table where
  columns : List String := []
  rows : List (List Value) := []

namespace Table

/-- The rows as objects; of columns with the same name the last one counts. -/
def objects (table : Table) : List Value :=
  table.rows.map fun row => .object (insertEntries [] (table.columns.zip row))

/-- The values of the column with an index; rows that are too short give null. -/
def columnAt (table : Table) (index : Nat) : List Value :=
  table.rows.map fun row => (row[index]?).getD .null

/-- The values of the first column with a name. -/
def column? (table : Table) (name : String) : Option (List Value) :=
  (table.columns.findIdx? (· == name)).map table.columnAt

end Table

/-- The rows that a value holds: those of a list, in which lists are rows and other items rows of
one column. Null holds none, and any other value is a single row. -/
def rowsOfValue : Value → List (List Value)
  | .null => []
  | .list items => items.map fun
    | .list columns => columns
    | item => [item]
  | value => [[value]]

/-!
## Sources and writers

A source is the sequence of records that can be taken from it. A record may come with warnings,
and taking it may fail. A writer accepts a header, rows and flushes, and may fail at each.
-/

/-- A record of the input: the names of the columns, or a row. -/
inductive InputRecord where
  | header (names : List String)
  | row (values : List Value)

/-- What taking one record gives. -/
structure Pull where
  warnings : List Warning := []
  result : Except Error InputRecord

/-- The records that can be taken, in order. -/
abbrev Source := List Pull

namespace Source

/-- A source of records that cannot fail. -/
def ofRecords (records : List InputRecord) : Source :=
  records.map fun record => ⟨[], .ok record⟩

/-- A source of rows without a header. -/
def ofRows (rows : List (List Value)) : Source :=
  ofRecords (rows.map .row)

/-- A source of rows after a header. -/
def ofTable (table : Table) : Source :=
  ofRecords (.header table.columns :: table.rows.map .row)

end Source

/-- What a writer accepts. -/
inductive Event where
  | header (columns : List String)
  | row (values : List Value)
  | flush

/-- A writer: whether an event is accepted, and the state after it. -/
abbrev Writer (σ : Type) := Event → σ → Except Error Unit × σ

namespace Writer

/-- Keeps all events, the latest first. -/
def recorder : Writer (List Event) := fun event events => (.ok (), event :: events)

/-- Collects a table; its rows are held with the latest one first until `Writer.collected`. -/
def collector : Writer Table := fun event table =>
  match event with
  | .header columns => (.ok (), { table with columns := columns })
  | .row values => (.ok (), { table with rows := values :: table.rows })
  | .flush => (.ok (), table)

/-- The table that a collector holds. -/
def collected (table : Table) : Table :=
  { table with rows := table.rows.reverse }

end Writer

end StreamQuery
