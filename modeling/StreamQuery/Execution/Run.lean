import StreamQuery.Execution.Row
import StreamQuery.Execution.Stream

/-!
# Running a query

A run takes records from a source until the source ends or no more rows are wanted. The first row
fixes the columns: their names and those of the output, and the plan. The header is written before
anything is compiled.
-/

namespace StreamQuery

/-- What changes during a run that writes to a `σ`. -/
structure RunState (σ : Type) where
  aggregates : Aggregates := {}
  rowNumber : Nat := 0
  inputRowNumber : Nat := 0
  pulled : Nat := 0
  output : Output
  writer : σ

/-- Steps of a run. -/
abbrev Running (σ : Type) := Stateful (RunState σ)

/-- The numbers of rows read and written. -/
structure Stats where
  rowsIn : Nat
  rowsOut : Nat
  deriving DecidableEq, Repr

/-- A query with the variables it is run with. -/
structure Job where
  query : Query
  vars : List (String × Value) := []
  policy : WarningPolicy := .report
  clock : Calendar.DateTime := ⟨⟨1970, 1, 1⟩, 0, 0⟩

namespace Job

/-- What all expressions of a run see. -/
def session (job : Job) : Session :=
  { vars := job.vars
    imports := insertEntries [] (job.query.imports.map fun (module, name) => (name, module))
    clock := job.clock
    policy := job.policy }

/-! ### Constants -/

/-- The value of an expression that sees no row. -/
def constant (job : Job) (clause : Clause) (text : String) : Reporting Value := do
  let prepared := ColumnBindings.prepare [] job.query.literals text
  let expr ← Plan.compileAt job.policy ⟨clause, none⟩ prepared
  let scope : Scope := { session := job.session }
  ExceptT.mk do
    let (result, _) ← (scope.evaluateAt ⟨clause, none⟩ expr).run.run {}
    return result

/-- The source of a query that reads no file: the rows of an expression, or without `FROM` one row
of one null. -/
def source? (job : Job) : Reporting (Option Source) := do
  match job.query.source with
  | none => return some (.ofRows [[.null]])
  | some (.expression text) =>
    return some (.ofRows (rowsOfValue (← job.constant .source text)))
  | some (.format _) => return none

/-! ### Steps -/

variable {σ : Type}

/-- Writes an event. -/
def write (writer : Writer σ) (event : Event) : Running σ Unit := do
  let state ← get
  let (result, written) := writer event state.writer
  set { state with writer := written }
  match result with
  | .ok () => return ()
  | .error error => throw error

/-- Writes rows. -/
def writeRows (writer : Writer σ) : List (List Value) → Running σ Unit
  | [] => pure ()
  | values :: rest => do
    write writer (.row values)
    writeRows writer rest

/-- A computation on the accumulators. -/
def evaluating {α : Type} (computation : Evaluating α) : Running σ α :=
  Stateful.onPart RunState.aggregates
    (fun aggregates state => { state with aggregates := aggregates }) computation

/-- What an expression sees on a row now. -/
def scope (job : Job) (names : List String) (values : List Value) (state : RunState σ) : Scope :=
  { session := job.session
    values := values
    names := names
    rowNumber := state.rowNumber
    inputRowNumber := state.inputRowNumber }

/-- Takes a record, with its warnings. -/
def take (job : Job) (pull : Pull) : Running σ InputRecord := do
  Stateful.ofReporting (raiseAll job.policy pull.warnings)
  match pull.result with
  | .ok record =>
    modify fun state => { state with pulled := state.pulled + 1 }
    return record
  | .error error => throw error

/-- Hands a row to the output if it is kept; whether no more rows are wanted. -/
def handleRow (job : Job) (writer : Writer σ) (plan : Plan) (names : List String)
    (values : List Value) : Running σ Bool := do
  let kept ← evaluating (plan.keeps (job.scope names values (← get)))
  if !kept then return false
  else
    modify fun state => { state with rowNumber := state.rowNumber + 1 }
    let record ← evaluating (plan.record (job.scope names values (← get)))
    let state ← get
    let (rows, output) := state.output.handle record
    set { state with output := output }
    writeRows writer rows
    return output.isFull

/-- Handles rows until no more are wanted. -/
def handleRows (job : Job) (writer : Writer σ) (plan : Plan) (names : List String) :
    List (List Value) → Running σ Bool
  | [] => pure false
  | values :: rest => do
    if ← job.handleRow writer plan names values then return true
    else job.handleRows writer plan names rest

/-- Handles a row of the input; whether no more are wanted. -/
def handleInput (job : Job) (writer : Writer σ) (plan : Plan) (names : List String)
    (values : List Value) : Running σ Bool := do
  modify fun state => { state with inputRowNumber := state.inputRowNumber + 1 }
  let rows ← evaluating (plan.spread (job.scope names values (← get)))
  job.handleRows writer plan names rows

/-- Takes rows after the first one. Headers no longer count. -/
def consumeRows (job : Job) (writer : Writer σ) (plan : Plan) (names : List String) :
    Source → Running σ Unit
  | [] => pure ()
  | pull :: rest => do
    match ← job.take pull with
    | .header _ => job.consumeRows writer plan names rest
    | .row values =>
      if ← job.handleInput writer plan names values then return ()
      else job.consumeRows writer plan names rest

/-- The names of the columns of a row: the declared names, and default names for other columns. -/
def columnNames (declared : List String) (count : Nat) : List String :=
  (List.range count).map fun index => (declared[index]?).getD (defaultColumnName index)

/-- Writes the header, given the names of the input columns. -/
def writeHeader (job : Job) (writer : Writer σ) (names : List String) : Running σ Unit :=
  write writer (.header (outputColumns job.query.selection.items names))

/-- Takes records from the beginning, where `declared` are the names of the last header. -/
def consume (job : Job) (writer : Writer σ) (declared : List String) :
    Source → Running σ Unit
  | [] => job.writeHeader writer declared
  | pull :: rest => do
    match ← job.take pull with
    | .header names => job.consume writer names rest
    | .row values =>
      let names := columnNames declared values.length
      job.writeHeader writer names
      if (← get).output.isDone then return ()
      else
        let bindings := ColumnBindings.ofDeclared values.length declared
        let plan ← Stateful.ofReporting (Plan.ofQuery job.policy job.query bindings)
        if ← job.handleInput writer plan names values then return ()
        else job.consumeRows writer plan names rest

/-- Takes all records, writes the rows that were kept, and flushes. -/
def runAll (job : Job) (writer : Writer σ) (source : Source) : Running σ Stats := do
  job.consume writer [] source
  let state ← get
  let (rows, output) := state.output.finish
  set { state with output := output }
  writeRows writer rows
  write writer .flush
  let state ← get
  return ⟨state.inputRowNumber, state.output.window.written⟩

/-- The state before a run. -/
def initial (job : Job) (writer : σ) : RunState σ :=
  { output := .ofQuery job.query, writer := writer }

/-- Runs a query from a source to a writer: the result, the state at the end, and the warnings. -/
def run (job : Job) (writer : Writer σ) (start : σ) (source : Source) :
    Except Error Stats × RunState σ × List Warning :=
  (job.runAll writer source).start (job.initial start)

/-- The error of a query that reads a file where none can be read. -/
def readerNeeded (job : Job) : Error :=
  .unknownFormat (.noReader (match job.query.source with
    | some (.format call) => call.name
    | _ => ""))

/-- Runs a query that reads no file, and collects its rows. -/
def runInMemory (job : Job) : Reporting (Table × Stats) := do
  match ← job.source? with
  | none => throw job.readerNeeded
  | some source =>
    let computation := job.runAll Writer.collector source
    ExceptT.mk do
      let (result, state) ← computation.run.run (job.initial {})
      return result.map fun stats => (Writer.collected state.writer, stats)

end Job

end StreamQuery
