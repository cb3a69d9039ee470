import StreamQuery.Evaluation.Assignment
import StreamQuery.Execution.Output
import StreamQuery.Execution.Plan

/-!
# Rows under a plan

What a plan makes of one row of the input: the rows that `EXPLODE` spreads it into, whether a row
is kept, and the record of a row that is. Errors of evaluation tell the clause, the number of the
row in the input and its values.
-/

namespace StreamQuery

/-- The error of an evaluation on a row. -/
def runtimeError (location : Location) (row : Nat) (values : List Value) (error : Error) :
    Error :=
  if error.isEvaluation then .runtime location row (Value.list values).toJson error else error

namespace Scope

/-- Evaluates an expression of a clause on a row. -/
def evaluateAt (scope : Scope) (location : Location) (expr : Expr) : Evaluating Value :=
  (scope.evaluate expr).mapError (runtimeError location scope.inputRowNumber scope.values)

/-- Evaluates the expressions of a clause on a row, numbered from `position` on. -/
def evaluateEach (scope : Scope) (clause : Clause) (position : Nat) :
    List Expr → Evaluating (List Value)
  | [] => pure []
  | expr :: rest => do
    let value ← scope.evaluateAt ⟨clause, some position⟩ expr
    return value :: (← scope.evaluateEach clause (position + 1) rest)

/-- The row with each of the items in the place that an expression names. -/
def assignEach (scope : Scope) (target : Expr) : List Value → Except Error (List (List Value))
  | [] => .ok []
  | item :: rest =>
    match Assignment.assign target scope.names scope.values item with
    | (none, values) => return values :: (← scope.assignEach target rest)
    | (some error, _) =>
      .error (runtimeError ⟨.explode, none⟩ scope.inputRowNumber scope.values error)

/-- The rows that a row is spread into: one for each item of the list that an expression names. -/
def explode (scope : Scope) (target : Expr) : Evaluating (List (List Value)) := do
  match ← scope.evaluateAt ⟨.explode, none⟩ target with
  | .null => return []
  | .list items => .ofResult (scope.assignEach target items)
  | other =>
    throw (runtimeError ⟨.explode, none⟩ scope.inputRowNumber scope.values
      (.type (.explodeKind other.kind)))

end Scope

namespace Plan

/-- The rows that a row of the input is spread into. -/
def spread (plan : Plan) (scope : Scope) : Evaluating (List (List Value)) :=
  match plan.explode with
  | some target => scope.explode target
  | none => pure [scope.values]

/-- Whether a row is kept. -/
def keeps (plan : Plan) (scope : Scope) : Evaluating Bool :=
  match plan.condition with
  | some condition => return (← scope.evaluateAt ⟨.condition, none⟩ condition).truthy
  | none => pure true

/-- Starts a row in its group; the key of the group. A query that does not group starts no row. -/
def startGroup (plan : Plan) (scope : Scope) : Evaluating String := do
  if plan.groupBy.isEmpty then return ""
  else
    let key := tupleKey (← scope.evaluateEach .groupBy 1 plan.groupBy)
    modify (Aggregates.startRow key)
    return key

/-- The values of the items of `SELECT`, numbered from `position` on. -/
def project (scope : Scope) (position : Nat) : List PlanItem → Evaluating (List Value)
  | [] => pure []
  | .star :: rest => return scope.values ++ (← project scope (position + 1) rest)
  | .expression expr :: rest => do
    let value ← scope.evaluateAt ⟨.select, some position⟩ expr
    return value :: (← project scope (position + 1) rest)

/-- The values of the keys of `ORDER BY`, numbered from `position` on. -/
def sortKeys (scope : Scope) (projected : List Value) (position : Nat) :
    List PlanKey → Evaluating (List Value)
  | [] => pure []
  | .expression expr :: rest => do
    let value ← scope.evaluateAt ⟨.orderBy, some position⟩ expr
    return value :: (← sortKeys scope projected (position + 1) rest)
  | .outputColumn index :: rest =>
    match projected[index]? with
    | some value => return value :: (← sortKeys scope projected (position + 1) rest)
    | none =>
      throw (runtimeError ⟨.orderBy, some position⟩ scope.inputRowNumber scope.values
        (.eval (.noOutputColumn (index + 1) projected.length)))

/-- The record of a row. -/
def record (plan : Plan) (scope : Scope) : Evaluating OutputRecord := do
  let groupKey ← plan.startGroup scope
  let values ← project scope 1 plan.items
  return ⟨values, ← sortKeys scope values 1 plan.orderBy, groupKey⟩

end Plan

end StreamQuery
