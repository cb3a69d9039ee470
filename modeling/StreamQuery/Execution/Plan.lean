import StreamQuery.Evaluation.Evaluator
import StreamQuery.Query.Basic
import StreamQuery.Query.Binding

/-!
# Plans

Once the columns of the input are known, the expressions of a query are compiled to a plan. A
clause with several expressions is compiled in one go; if that fails, its expressions are compiled
one by one to find the faulty one.
-/

namespace StreamQuery

/-- A compiled item of `SELECT`. -/
inductive PlanItem where
  | star
  | expression (expr : Expr)

/-- A compiled key of `ORDER BY`. -/
inductive PlanKey where
  | outputColumn (index : Nat)
  | expression (expr : Expr)

/-- The compiled expressions of a query. -/
structure Plan where
  items : List PlanItem
  explode : Option Expr
  condition : Option Expr
  groupBy : List Expr
  orderBy : List PlanKey

/-- The result of a computation, be it an error. -/
def Reporting.attempt {α : Type} (computation : Reporting α) : Reporting (Except Error α) :=
  ExceptT.mk (Except.ok <$> computation.run)

/-- A computation whose errors are changed. -/
def Stateful.mapError {σ α : Type} (change : Error → Error) (computation : Stateful σ α) :
    Stateful σ α :=
  ExceptT.mk (Except.mapError change <$> computation.run)

namespace Plan

/-- The error of an expression that does not compile. Warnings that are errors stay as they
are. -/
def compileError (location : Location) (text : String) : Error → Error
  | .warning raised => .warning raised
  | other => .compile location text other

/-- Compiles one expression of a clause. -/
def compileAt (policy : WarningPolicy) (location : Location) (text : String) :
    Reporting Expr := do
  match ← (Expr.compile policy text).attempt with
  | .ok expr => return expr
  | .error error => throw (compileError location text error)

/-- Compiles the expressions of a clause one by one, each with its position. -/
def compileEach (policy : WarningPolicy) (clause : Clause) :
    List (Nat × String) → Reporting (List Expr)
  | [] => pure []
  | (position, text) :: rest => do
    let expr ← compileAt policy ⟨clause, some position⟩ text
    return expr :: (← compileEach policy clause rest)

/-- Compiles the expressions of a clause, each with its position. -/
def compileList (policy : WarningPolicy) (clause : Clause) (items : List (Nat × String)) :
    Reporting (List Expr) := do
  if items.isEmpty then return []
  else
    let joined := ", ".intercalate (items.map (·.2))
    match ← (Expr.compileList policy joined).attempt with
    | .ok exprs =>
      if exprs.length = items.length then return exprs else compileEach policy clause items
    | .error error =>
      let _ ← compileEach policy clause items
      throw (compileError ⟨clause, none⟩ joined error)

/-- The texts that are there, with their positions from `position` on. -/
def numbered (position : Nat) : List (Option String) → List (Nat × String)
  | [] => []
  | some text :: rest => (position, text) :: numbered (position + 1) rest
  | none :: rest => numbered (position + 1) rest

/-- Compiles the expressions among the items of a clause. -/
def compileClause (policy : WarningPolicy) (clause : Clause) (prepare : String → String)
    (texts : List (Option String)) : Reporting (List Expr) :=
  compileList policy clause
    ((numbered 1 texts).map fun (position, text) => (position, prepare text))

/-- Items of `SELECT` with the compiled expressions put in. -/
def fillItems : List SelectItem → List Expr → List PlanItem
  | .star :: rest, exprs => .star :: fillItems rest exprs
  | .column _ _ :: rest, expr :: exprs => .expression expr :: fillItems rest exprs
  | _, _ => []

/-- Keys of `ORDER BY` with the compiled expressions put in. -/
def fillKeys : List OrderKey → List Expr → List PlanKey
  | key :: rest, exprs => match key.target, exprs with
    | .outputColumn index, exprs => .outputColumn index :: fillKeys rest exprs
    | .expression _, expr :: exprs => .expression expr :: fillKeys rest exprs
    | .expression _, [] => fillKeys rest []
  | [], _ => []

/-- The text of an item of `SELECT` that is an expression. -/
def itemText? : SelectItem → Option String
  | .star => none
  | .column _ expression => some expression

/-- The text of a key of `ORDER BY` that is an expression. -/
def keyText? (key : OrderKey) : Option String :=
  match key.target with
  | .expression text => some text
  | .outputColumn _ => none

/-- Compiles a clause of one expression, if it is there. -/
def compileOptional (policy : WarningPolicy) (clause : Clause) (prepare : String → String)
    (text : Option String) : Reporting (Option Expr) :=
  match text with
  | some text => some <$> compileAt policy ⟨clause, none⟩ (prepare text)
  | none => pure none

/-- The plan of a query for an input with the columns of the bindings. -/
def ofQuery (policy : WarningPolicy) (query : Query) (bindings : ColumnBindings) :
    Reporting Plan := do
  let prepare := bindings.prepare query.literals
  let items ← compileClause policy .select prepare (query.selection.items.map itemText?)
  let explode ← compileOptional policy .explode prepare query.explode
  let condition ← compileOptional policy .condition prepare query.condition
  let groupBy ← compileClause policy .groupBy prepare (query.groupBy.map some)
  let orderBy ← compileClause policy .orderBy prepare (query.orderBy.map keyText?)
  return {
    items := fillItems query.selection.items items
    explode := explode
    condition := condition
    groupBy := groupBy
    orderBy := fillKeys query.orderBy orderBy }

end Plan

end StreamQuery
