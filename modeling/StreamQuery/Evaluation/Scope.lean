import StreamQuery.Aggregate.Table
import StreamQuery.Calendar.Date
import StreamQuery.Function.Library

/-!
# Scopes

What an expression sees: the variables and modules of a run, and the row it is evaluated on.
Evaluation may raise warnings and may fail, and keeps what its aggregate calls accumulated in
either case.
-/

namespace StreamQuery

/-- Computations that may raise warnings and may fail. The state holds the latest warning
first. -/
abbrev Reporting := ExceptT Error (StateM (List Warning))

/-- Raises a warning, or fails where warnings are errors. -/
def raise (policy : WarningPolicy) (warning : Warning) : Reporting Unit :=
  match policy with
  | .report => modify (warning :: ·)
  | .fail => throw (.warning warning)

/-- Raises warnings in order. -/
def raiseAll (policy : WarningPolicy) : List Warning → Reporting Unit
  | [] => pure ()
  | warning :: rest => do
    raise policy warning
    raiseAll policy rest

/-- Computations on top of a state of their own. -/
abbrev Stateful (σ : Type) := ExceptT Error (StateT σ (StateM (List Warning)))

/-- A computation that leaves the state alone. -/
def Stateful.ofReporting {σ α : Type} (computation : Reporting α) : Stateful σ α :=
  ExceptT.mk (StateT.lift computation.run)

/-- A computation on a part of the state. -/
def Stateful.onPart {σ τ α : Type} (get : σ → τ) (set : τ → σ → σ) (computation : Stateful τ α) :
    Stateful σ α :=
  ExceptT.mk fun state => do
    let (result, part) ← computation.run (get state)
    return (result, set part state)

/-- The result, the state and the warnings in order, from a state and without warnings. -/
def Stateful.start {σ α : Type} (computation : Stateful σ α) (state : σ) :
    Except Error α × σ × List Warning :=
  let ((result, state), warnings) := (computation.run.run state).run []
  (result, state, warnings.reverse)

/-- The result and the warnings in order. -/
def Reporting.start {α : Type} (computation : Reporting α) : Except Error α × List Warning :=
  let (result, warnings) := computation.run.run []
  (result, warnings.reverse)

/-- Computations that call aggregates. -/
abbrev Evaluating := Stateful Aggregates

/-- What all expressions of a run see: the variables, the modules by their aliases, the present
moment, and what becomes of warnings. -/
structure Session where
  vars : List (String × Value) := []
  imports : List (String × String) := []
  clock : Calendar.DateTime := ⟨⟨1970, 1, 1⟩, 0, 0⟩
  policy : WarningPolicy := .report

/-- The module bound to a name, by an import or by being its own name. A variable of the name
hides it. -/
def Session.module? (session : Session) (name : String) : Option String :=
  if (lookup? name session.vars).isSome then none
  else match lookup? name session.imports with
    | some module => some module
    | none => (Module.ofName? name).map Module.name

/-- What an expression sees on a row. -/
structure Scope where
  session : Session := {}
  values : List Value := []
  names : List String := []
  rowNumber : Nat := 0
  inputRowNumber : Nat := 0

/-- A row as an object: that of its only column, or one entry per named column. -/
def rowObject (names : List String) (values : List Value) : Value :=
  match values with
  | [.object entries] => .object entries
  | values => .object (insertEntries [] (names.zip values))

/-- The value of a name: a part of the row, a variable, or a module's constants. -/
def Scope.resolve (scope : Scope) (name : String) : Except Error Value :=
  match name with
  | "_values" => .ok (.list scope.values)
  | "cols" => .ok (.list scope.values)
  | "_names" => .ok (.list (scope.names.map Value.str))
  | "row" => .ok (rowObject scope.names scope.values)
  | "row_number" => .ok (.ofNat scope.rowNumber)
  | "input_row_number" => .ok (.ofNat scope.inputRowNumber)
  | name => match lookup? name scope.session.vars with
    | some value => .ok value
    | none => match scope.session.module? name with
      | some module => .ok (.object (((Module.ofName? module).map Module.constants).getD []))
      | none => .error (.eval (.undefinedName name))

end StreamQuery
