import StreamQuery.Execution.Stream
import StreamQuery.Text.Search
import StreamQuery.Unicode.Property

/-!
# Aligned tables

Rows are kept until they are flushed, since the width of a column depends on all of them. Numbers
stand at the right end of their cells and all else at the left end.
-/

namespace StreamQuery.Pretty

/-- The rows that wait for a flush, the latest first. -/
structure State where
  header : Bool := true
  columns : List String := []
  latest : List (List Value) := []

/-- A cell: its text, and whether it stands at the right end. -/
structure Cell where
  text : List Char
  right : Bool := false

/-- The cell of a value. -/
def Cell.ofValue (value : Value) : Cell :=
  ⟨value.display.toList, match value with
    | .int _ => true
    | .float _ => true
    | _ => false⟩

/-- A cell filled up with spaces. -/
def Cell.pad (width : Nat) (cell : Cell) : List Char :=
  let filling := List.replicate (width - cell.text.length) ' '
  if cell.right then filling ++ cell.text else cell.text ++ filling

/-- The width of the column with an index. -/
def columnWidth (rows : List (List Cell)) (index : Nat) : Nat :=
  (rows.filterMap fun row => (row[index]?).map (·.text.length)).foldl max 0

/-- The widths of the columns. -/
def columnWidths (columnCount : Nat) (rows : List (List Cell)) : List Nat :=
  (List.range columnCount).map (columnWidth rows)

/-- What divides columns. -/
def gap : List Char := [' ', ' ']

/-- A row filled up to the widths, without blanks at its end. -/
def writtenRow (widths : List Nat) (row : List Cell) : List Char :=
  let cells := widths.zipIdx.map fun (width, index) => ((row[index]?).getD ⟨[], false⟩).pad width
  Text.trimEnd Unicode.isWhitespace (gap.intercalate cells) ++ ['\n']

/-- The line under the header. -/
def rule (widths : List Nat) : List Char :=
  gap.intercalate (widths.map fun width => List.replicate width '-') ++ ['\n']

/-- The table of a header, if one is written, and rows. -/
def writtenTable (header : Bool) (columns : List String) (rows : List (List Value)) :
    List Char :=
  let names := columns.map fun name => Cell.mk name.toList false
  let cells := rows.map fun row => row.map Cell.ofValue
  let count := ((columns.length) :: rows.map List.length).foldl max 0
  let widths := columnWidths count (if header then names :: cells else cells)
  (if header then writtenRow widths names ++ rule widths else []) ++
    cells.flatMap (writtenRow widths)

/-- What is written because of an event, and the state after it. -/
def State.write (state : State) : Event → String × State
  | .header columns => ("", { state with columns := columns })
  | .row values => ("", { state with latest := values :: state.latest })
  | .flush =>
    if state.columns.isEmpty && state.latest.isEmpty then ("", state)
    else
      (String.ofList (writtenTable state.header state.columns state.latest.reverse),
        { state with columns := [], latest := [] })

end StreamQuery.Pretty
