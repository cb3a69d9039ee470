import StreamQuery.Query.Fragment
import StreamQuery.Number.Notation

/-!
# Column bindings

Once the columns of the input are known, the names of columns in expressions are replaced by their
positions in the row.
-/

namespace StreamQuery

/-- The default name of a column: `col1`, `col2` and so on. -/
def defaultColumnName (index : Nat) : String :=
  "col" ++ toString (index + 1)

/-- The positions of columns by their names. -/
abbrev ColumnBindings := List (String × Nat)

namespace ColumnBindings

/-- Default names for a number of columns, and the declared names for as many of them as there
are. A later binding of a name replaces an earlier one. -/
def ofDeclared (count : Nat) (declared : List String) : ColumnBindings :=
  let defaults := (List.range count).map fun index => (defaultColumnName index, index)
  let named := ((declared.take count).zipIdx).map fun (name, index) => (name, index)
  insertEntries (insertEntries [] defaults) named

/-- Access to a column by its position. -/
def access (index : Nat) : List Char :=
  "_values[".toList ++ Number.digitsOf index ++ [']']

/-- Bound names are replaced by access to their columns. A name after a dot or before a
parenthesis is no column. -/
def bindFragments (bindings : ColumnBindings) (previous : Option Fragment) :
    List Fragment → List Char
  | [] => []
  | fragment :: rest =>
    let written := match fragment with
      | .word letters => match lookup? (String.ofList letters) bindings with
        | some index =>
          if previous == some (.sign '.') || Fragment.opensCall rest then letters else access index
        | none => letters
      | fragment => fragment.text
    written ++ bindFragments bindings (some fragment) rest

/-- A text with its columns bound. -/
def bind (bindings : ColumnBindings) (text : List Char) : List Char :=
  bindFragments bindings none (Fragment.ofText text)

/-- A text ready to be compiled: its columns bound and its literals restored. -/
def prepare (bindings : ColumnBindings) (literals : LiteralTable) (text : String) : String :=
  String.ofList (literals.restore true (bindings.bind text.toList))

end ColumnBindings

end StreamQuery
