import StreamQuery.Value.Basic

/-!
# Tables of TOML

A document is a tree of tables that its statements fill. No key is given twice, a table that was
written with a header is not extended by dotted keys, and none is written twice.
-/

namespace StreamQuery.Toml

/-- How a table came to be: by its header, by the header of a table in it, or by a dotted key. -/
inductive Origin where
  | written
  | implied
  | dotted
  deriving DecidableEq, Repr

/-- What a key of a table holds. The elements of a list of tables have headers of their own. -/
inductive Node where
  | value (value : Value)
  | table (origin : Origin) (entries : List (String × Node))
  | tables (elements : List (List (String × Node)))

/-- The entries of a table. -/
abbrev Table := List (String × Node)

/-! ### Values -/

mutual

/-- The value of a node. -/
def Node.toValue : Node → Value
  | .value value => value
  | .table _ entries => .object (entryValues entries)
  | .tables elements => .list (elementValues elements)

/-- The entries of a table with their values. -/
def entryValues : List (String × Node) → List (String × Value)
  | [] => []
  | (key, node) :: rest => (key, node.toValue) :: entryValues rest

/-- The values of a list of tables. -/
def elementValues : List (List (String × Node)) → List Value
  | [] => []
  | entries :: rest => .object (entryValues entries) :: elementValues rest

end

/-! ### Filling tables -/

namespace Table

/-- Changes the table at a path, where a missing table is made. A dotted path does not pass
through tables that have a header. -/
def changeAt (dotted : Bool) (change : Origin → Table → Option Table) (origin : Origin)
    (table : Table) : List String → Option Table
  | [] => change origin table
  | key :: rest =>
    match lookup? key table with
    | none => do
      let origin := if dotted then Origin.dotted else .implied
      let inner ← changeAt dotted change origin [] rest
      some (insertEntry key (.table origin inner) table)
    | some (.value _) => none
    | some (.table origin inner) =>
      if dotted && origin == .written then none
      else do
        let inner ← changeAt dotted change origin inner rest
        some (insertEntry key (.table origin inner) table)
    | some (.tables elements) =>
      match elements.getLast? with
      | none => none
      | some element => do
        let inner ← changeAt dotted change .written element rest
        some (insertEntry key (.tables (elements.dropLast ++ [inner])) table)

/-- Adds a value with a key that may be dotted. -/
def addValue (path : List String) (value : Value) (table : Table) : Option Table :=
  match path.getLast? with
  | none => none
  | some key =>
    let add (origin : Origin) (inner : Table) : Option Table :=
      if (path.length > 1 && origin != .dotted) || (lookup? key inner).isSome then none
      else some (insertEntry key (.value value) inner)
    changeAt true add .written table path.dropLast

/-- Adds values in order. -/
def addValues (entries : List (List String × Value)) (table : Table) : Option Table :=
  entries.foldlM (fun table (path, value) => addValue path value table) table

/-- Adds the table of a header with its values, as the last entry even if the table was implied
before. -/
def addTable (path : List String) (entries : List (List String × Value)) (table : Table) :
    Option Table :=
  match path.getLast? with
  | none => none
  | some key =>
    let add (_ : Origin) (parent : Table) : Option Table :=
      match lookup? key parent with
      | none => do
        some (parent ++ [(key, .table .written (← addValues entries []))])
      | some (.table .implied inner) => do
        let inner ← addValues entries inner
        some (parent.filter (·.1 != key) ++ [(key, .table .written inner)])
      | some _ => none
    changeAt false add .written table path.dropLast

/-- Adds an element with its values to the list of tables of a header. -/
def addElement (path : List String) (entries : List (List String × Value)) (table : Table) :
    Option Table :=
  match path.getLast? with
  | none => none
  | some key =>
    let add (_ : Origin) (parent : Table) : Option Table :=
      match lookup? key parent with
      | none => do
        some (parent ++ [(key, .tables [← addValues entries []])])
      | some (.tables elements) => do
        let element ← addValues entries []
        some (insertEntry key (.tables (elements ++ [element])) parent)
      | some _ => none
    changeAt false add .written table path.dropLast

end Table

end StreamQuery.Toml
