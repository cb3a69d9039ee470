import StreamQuery.Aggregate.Basic
import StreamQuery.Evaluation.Scope
import StreamQuery.Query.Item
import StreamQuery.Query.Structure

/-!
# Queries

A query is read clause by clause. Its expressions stay texts, with placeholders for literals,
until the columns of the input are known.
-/

namespace StreamQuery

/-- A query. A query that does not group has no grouping expressions. -/
structure Query where
  imports : List (String × String)
  selection : Selection
  source : Option Target
  explode : Option String
  condition : Option String
  groupBy : List String
  orderBy : List OrderKey
  limit : Option Nat
  offset : Nat
  target : Target
  literals : LiteralTable

namespace Query

/-- The grouping expression of a query that aggregates all rows: a constant. -/
def overallGroup : String := "'_OVERALL_'"

/-- The aggregates that a text seems to call. -/
def aggregatesIn (text : List Char) : List String :=
  (Item.calledNames text).filter Aggregate.isName

/-- Refuses a clause that calls aggregates. -/
def withoutAggregates (clause : Clause) (text : List Char) : Except SemanticFault Unit :=
  match aggregatesIn text with
  | [] => .ok ()
  | names => .error (.aggregateIn clause names)

/-- A count of rows: negative numbers count as zero, and what is no integer sets no bound. -/
def rowCount? (text : String) : Option Nat :=
  (Number.readInt64? 10 (Item.trim text.toList)).map Int.toNat

/-- First characters of the names in `IMPORT`; letters that only differ in case from an ASCII
letter count as one. -/
def startsImport (c : Char) : Bool :=
  c.isAlpha || c == '_' || c == '\u017f' || c == '\u212a'

/-- A module and its alias. -/
def importItem? (text : List Char) : Option (String × String) :=
  let name := text.takeWhile Unicode.isWord
  if !name.head?.any startsImport then none
  else
    match text.dropWhile Unicode.isWord with
    | [] => some (String.ofList name, String.ofList name)
    | c :: rest =>
      if !Unicode.isWhitespace c then none
      else match Item.dropKeyword? ['A', 'S'] (rest.dropWhile Unicode.isWhitespace) with
        | some given =>
          if given.head?.any startsImport && given.all Unicode.isWord then
            some (String.ofList name, String.ofList given)
          else none
        | none => none

/-- The modules and their aliases that a clause imports. -/
def parseImports (text : List Char) : Except Error (List (String × String)) :=
  (Item.split text).mapM fun item =>
    match importItem? item with
    | none => .error (.syntaxFault (.invalidImport (String.ofList item)))
    | some (module, name) =>
      if (Module.ofName? module).isSome then .ok (module, name)
      else .error (.moduleNotFound module)

/-- A grouping expression; a number stands for the expression of an output column. -/
def groupItem (items : List SelectItem) (text : List Char) : Except SemanticFault String := do
  match ← Item.columnNumber? .groupBy text with
  | none => return String.ofList (Shorthand.expand text)
  | some index => match items[index]? with
    | none => .error (.groupByColumn (index + 1) items.length)
    | some .star => .error .groupByStar
    | some (.column _ expression) => return expression

/-- The grouping expressions of a clause, none of which aggregates. -/
def parseGroupBy (items : List SelectItem) (text : List Char) :
    Except SemanticFault (List String) := do
  let keys ← (Item.split text).mapM (groupItem items)
  for key in keys do
    withoutAggregates .groupBy key.toList
  return keys

/-- A semantic result as a step of reading a query. -/
def semantic {α : Type} (result : Except SemanticFault α) : Reporting α :=
  ExceptT.mk (pure (result.mapError .semantic))

/-- A result as a step of reading a query. -/
def certain {α : Type} (result : Except Error α) : Reporting α :=
  ExceptT.mk (pure result)

/-- The part of a clause that is there, read by a step. -/
def optional {α : Type} (text : Option String) (read : List Char → Reporting α) :
    Reporting (Option α) :=
  match text with
  | some text => some <$> read text.toList
  | none => pure none

/-- The query of clauses without literals. `rewritten` is their whole text; a query that
aggregates anywhere in it and does not group has a single group. -/
def ofStructure (policy : WarningPolicy) (defaultTarget : String) (rewritten : List Char)
    (literals : LiteralTable) (clauses : QueryStructure) : Reporting Query := do
  let clause (clause : Clause) : Option String := clauses.nonEmpty? clause
  let selection := Selection.ofText literals ((clause .select).getD "").toList
  let imports ← optional (clause .imports) fun text => certain (parseImports text)
  let source ← optional (clause .source) fun text => do
    semantic (withoutAggregates .source text)
    return Target.ofText Target.readable text
  let explode := (clause .explode).map fun text => String.ofList (Shorthand.expand text.toList)
  let condition ← optional (clause .condition) fun text => do
    semantic (withoutAggregates .condition text)
    return String.ofList (Shorthand.expand text)
  let orderBy ← optional (clause .orderBy) fun text => semantic (OrderKey.listOfText text)
  let orderBy := orderBy.getD []
  let groupBy ← match clause .groupBy with
    | some text => semantic (parseGroupBy selection.items text.toList)
    | none =>
      if (aggregatesIn rewritten).isEmpty then pure []
      else
        if !orderBy.isEmpty then raise policy .uselessOrderBy
        pure [overallGroup]
  if selection.distinct && !groupBy.isEmpty then throw (.semantic .distinctAggregation)
  return {
    imports := imports.getD []
    selection := selection
    source := source
    explode := explode
    condition := condition
    groupBy := groupBy
    orderBy := orderBy
    limit := (clause .limit).bind rowCount?
    offset := ((clause .offset).bind rowCount?).getD 0
    target := ((clause .target).map fun text => Target.ofText Target.writable text.toList).getD
      (.format ⟨defaultTarget, [], []⟩)
    literals := literals }

/-- The query with a text, where `name` gives the placeholders of its literals. -/
def parseWith (name : Nat → List Char) (policy : WarningPolicy) (defaultTarget text : String) :
    Reporting Query := do
  let (rewritten, literals) ←
    certain ((LiteralTable.extract name text.toList).mapError .syntaxFault)
  let clauses ← certain ((QueryStructure.ofText rewritten).mapError .syntaxFault)
  ofStructure policy defaultTarget rewritten literals clauses

/-- The query with a text. Without a `TO` clause it writes to the default target. -/
def parse (policy : WarningPolicy) (defaultTarget text : String) : Reporting Query :=
  parseWith (Placeholder.fresh text.toList) policy defaultTarget text

/-- Whether a query groups its rows. -/
def groups (query : Query) : Bool :=
  !query.groupBy.isEmpty

end Query

end StreamQuery
