import StreamQuery.Evaluation.Scope
import StreamQuery.Expr.Parser

/-!
# Evaluation

The value of an expression on a row. Operands and arguments are evaluated from left to right;
`and`, `or`, `??` and the conditional forms evaluate no more than they need. How aggregate calls
are carried out is a parameter of evaluation.
-/

namespace StreamQuery

/-- A result that leaves the state alone and raises no warnings. -/
def Stateful.ofResult {σ α : Type} (result : Except Error α) : Stateful σ α :=
  ExceptT.mk (pure result)

/-- A result with its warning raised. -/
def Stateful.ofNoted {σ : Type} (policy : WarningPolicy) (result : Except Error Noted) :
    Stateful σ Value := do
  let noted ← Stateful.ofResult result
  match noted.warning with
  | none => return noted.value
  | some warning =>
    Stateful.ofReporting (raise policy warning)
    return noted.value

/-- An aggregate call. -/
def Evaluating.ofAggregate (function : Aggregate) (arguments : List Value) : Evaluating Value :=
  ExceptT.mk fun table => pure (table.call function arguments)

/-- How aggregate calls are carried out, each given as the call itself, its function and the values
of its arguments. -/
abbrev AggregateHandler (σ : Type) := Expr → Aggregate → List Value → Stateful σ Value

namespace Scope

variable {σ : Type}

/-- Calls an aggregate or a plain function. -/
def callFunction (handler : AggregateHandler σ) (scope : Scope) (call : Expr) (name : String)
    (arguments : List Value) : Stateful σ Value :=
  match Aggregate.ofName? name with
  | some function => handler call function arguments
  | none => .ofNoted scope.session.policy (Builtin.call name arguments)

/-- The module that an expression is an alias of. -/
def moduleOf? (scope : Scope) : Expr → Option String
  | .variable name => scope.session.module? name
  | _ => none

/-- A constant of a module. -/
def constant (module name : String) : Except Error Value :=
  match ((Module.ofName? module).map Module.constants).bind (lookup? name) with
  | some value => .ok value
  | none => .error (.eval (.noAttribute module name))

/-- Whether the condition of a branch applies: by equality with the operand, or by its truth. -/
def branchApplies (operand : Option Value) (condition : Value) : Bool :=
  match operand with
  | some operand => !operand.isNull && operand.equal condition
  | none => condition.truthy

/-- Three-valued conjunction of values of which none is false. -/
def conjunction (left right : Value) : Value :=
  if !right.isNull && !right.truthy then .bool false
  else if left.isNull || right.isNull then .null
  else .bool true

/-- Three-valued disjunction of values of which the left one is not true. -/
def disjunction (left right : Value) : Value :=
  if right.truthy then .bool true
  else if left.isNull || right.isNull then .null
  else .bool false

mutual

/-- The value of an expression, where a handler carries out the aggregate calls. -/
def evaluateWith (handler : AggregateHandler σ) (scope : Scope) : Expr → Stateful σ Value
  | .literal value => pure value
  | .column index => pure ((scope.values[index]?).getD .null)
  | .variable name => .ofResult (scope.resolve name)
  | .field base name => do
    match scope.moduleOf? base with
    | some module => .ofResult (constant module name)
    | none => .ofResult ((← evaluateWith handler scope base).item (.str name))
  | .item base index => do
    let base ← evaluateWith handler scope base
    .ofResult (base.item (← evaluateWith handler scope index))
  | .slice base start stop => do
    let base ← evaluateWith handler scope base
    let start ← evaluateOption handler scope start
    let stop ← evaluateOption handler scope stop
    .ofResult (base.slice start stop)
  | .binary left op right => do
    let leftValue ← evaluateWith handler scope left
    match op with
    | .conjunction =>
      if !leftValue.isNull && !leftValue.truthy then return .bool false
      else return conjunction leftValue (← evaluateWith handler scope right)
    | .disjunction =>
      if leftValue.truthy then return .bool true
      else return disjunction leftValue (← evaluateWith handler scope right)
    | .coalesce => if !leftValue.isNull then return leftValue else evaluateWith handler scope right
    | op => .ofResult (Value.applyBinary op leftValue (← evaluateWith handler scope right))
  | .unary op operand => do .ofResult (Value.applyUnary op (← evaluateWith handler scope operand))
  | .isNull operand negated => do
    return .bool ((← evaluateWith handler scope operand).isNull != negated)
  | .object entries => do
    return .object (insertEntries [] (← evaluateEntries handler scope entries))
  | .list items => do return .list (← evaluateAll handler scope items)
  | .call name arguments => do
    scope.callFunction handler (.call name arguments) name (← evaluateAll handler scope arguments)
  | .method receiver name arguments => do
    match scope.moduleOf? receiver with
    | some module =>
      let arguments ← evaluateAll handler scope arguments
      .ofResult (Module.call scope.session.clock module name arguments)
    | none =>
      let first ← evaluateWith handler scope receiver
      scope.callFunction handler (.method receiver name arguments) name
        (first :: (← evaluateAll handler scope arguments))
  | .ternary condition whenTrue whenFalse => do
    if (← evaluateWith handler scope condition).truthy then evaluateWith handler scope whenTrue
    else evaluateWith handler scope whenFalse
  | .case none branches otherwise => do
    match ← evaluateBranches handler scope none branches with
    | some value => return value
    | none => evaluateOption handler scope otherwise
  | .case (some operand) branches otherwise => do
    let value ← evaluateWith handler scope operand
    match ← evaluateBranches handler scope (some value) branches with
    | some value => return value
    | none => evaluateOption handler scope otherwise
termination_by structural expr => expr

/-- The value of an expression that may be absent. -/
def evaluateOption (handler : AggregateHandler σ) (scope : Scope) : Option Expr → Stateful σ Value
  | none => pure .null
  | some expr => evaluateWith handler scope expr
termination_by structural expr => expr

/-- The values of expressions. -/
def evaluateAll (handler : AggregateHandler σ) (scope : Scope) :
    List Expr → Stateful σ (List Value)
  | [] => pure []
  | expr :: rest => do
    let value ← evaluateWith handler scope expr
    return value :: (← evaluateAll handler scope rest)
termination_by structural exprs => exprs

/-- The entries of an object. -/
def evaluateEntries (handler : AggregateHandler σ) (scope : Scope) :
    List (Expr × Expr) → Stateful σ (List (String × Value))
  | [] => pure []
  | (key, expr) :: rest => do
    let key ← evaluateWith handler scope key
    let value ← evaluateWith handler scope expr
    return (key.display, value) :: (← evaluateEntries handler scope rest)
termination_by structural entries => entries

/-- The result of the first branch whose condition applies. -/
def evaluateBranches (handler : AggregateHandler σ) (scope : Scope) (operand : Option Value) :
    List (Expr × Expr) → Stateful σ (Option Value)
  | [] => pure none
  | (condition, result) :: rest => do
    if branchApplies operand (← evaluateWith handler scope condition) then
      return some (← evaluateWith handler scope result)
    else evaluateBranches handler scope operand rest
termination_by structural branches => branches

end

/-- The value of an expression. -/
def evaluate (scope : Scope) (expr : Expr) : Evaluating Value :=
  scope.evaluateWith (fun _ => Evaluating.ofAggregate) expr

end Scope

/-! ### Compilation -/

namespace Expr

/-- The first aggregate called in each part that is evaluated for some rows only. -/
def conditionalAggregates (expr : Expr) : List String :=
  expr.conditionalBranches.filterMap fun branch => branch.calledFunctions.find? Aggregate.isName

/-- The expression of a text. Aggregates that are called for some rows only are warned about. -/
def compile (policy : WarningPolicy) (text : String) : Reporting Expr :=
  match parse text with
  | .error fault => throw (.syntaxFault fault)
  | .ok expr => do
    raiseAll policy (expr.conditionalAggregates.map .conditionalAggregate)
    return expr

/-- The expressions of a comma separated text, compiled in one go. -/
def compileList (policy : WarningPolicy) (text : String) : Reporting (List Expr) :=
  match parseList text with
  | .error fault => throw (.syntaxFault fault)
  | .ok exprs => do
    raiseAll policy ((exprs.flatMap conditionalAggregates).map .conditionalAggregate)
    return exprs

end Expr

end StreamQuery
