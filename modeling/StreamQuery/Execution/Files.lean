import StreamQuery.Execution.Run
import StreamQuery.Format.Call

/-!
# Runs with files

A query that names formats reads from a file or the standard input, and writes to one output. The
input is opened before the output, but a reader that takes no sample begins to read only after the
output was created. What was written before an error stays written.
-/

namespace StreamQuery

/-- Access to files: whether one can be opened, and what can be read from one that was opened.
Creating a file empties it. -/
structure FileAccess (m : Type → Type) where
  opens : Place → m (Except FileFault Unit)
  read : Place → m Input
  create : Place → m (Except FileFault Unit)
  write : Place → String → m Unit

/-- Computations that reach files, may raise warnings and may fail. -/
abbrev Reaching (m : Type → Type) := ExceptT Error (StateT (List Warning) m)

namespace Reaching

variable {m : Type → Type} [Monad m] {α : Type}

/-- A computation that only raises warnings. -/
def ofReports (computation : StateM (List Warning) α) : Reaching m α :=
  ExceptT.mk fun warnings =>
    let (result, warnings) := computation.run warnings
    pure (.ok result, warnings)

/-- A computation that reaches no file. -/
def ofReporting (computation : Reporting α) : Reaching m α := do
  match ← ofReports computation.run with
  | .ok result => return result
  | .error error => throw error

/-- A result. -/
def ofResult (result : Except Error α) : Reaching m α :=
  match result with
  | .ok result => return result
  | .error error => throw error

/-- An action on files. -/
def ofAction (action : m α) : Reaching m α :=
  ExceptT.mk fun warnings => do return (.ok (← action), warnings)

/-- An action on files that may fail. -/
def ofFile (action : m (Except FileFault α)) : Reaching m α := do
  match ← ofAction action with
  | .ok result => return result
  | .error fault => throw (.format (.files fault))

end Reaching

/-- What a run with files leaves: its counts, and the rows if they were collected in memory. -/
structure Delivery where
  table : Option Table
  stats : Stats

/-- An input after it was opened: a source, or a place that was not read yet. -/
inductive OpenedInput where
  | source (source : Source)
  | unread (reader : Reader) (place : Place)

namespace Job

/-- The evaluated arguments of a call in a clause. A default option counts unless the call has
one of its name. -/
def arguments (job : Job) (clause : Clause) (defaults : List (String × Value))
    (call : FormatCall) : Reporting FormatArguments := do
  let positional ← call.arguments.mapM (job.constant clause)
  let options ← call.options.mapM fun (name, text) => do
    return (name, ← job.constant clause text)
  return ⟨positional, insertEntries defaults options⟩

variable {m : Type → Type} [Monad m]

/-- The source that a reader makes of a place. -/
def readSource (files : FileAccess m) (reader : Reader) (place : Place) : Reaching m Source := do
  .ofResult (reader.source (← .ofAction (files.read place)))

/-- The input of a query, which may be a file. -/
def openInput (job : Job) (files : FileAccess m) (defaults : List (String × Value)) :
    Reaching m OpenedInput := do
  match ← .ofReporting job.source?, job.query.source with
  | some source, _ => return .source source
  | none, some (.format call) =>
    let arguments ← .ofReporting (job.arguments .source defaults call)
    let place ← .ofResult ((arguments.place call.name).mapError .format)
    .ofFile (files.opens place)
    let reader ← .ofResult (Reader.ofCall call.name arguments.options)
    if reader.readsAhead then return .source (← readSource files reader place)
    else return .unread reader place
  | none, _ => throw job.readerNeeded

/-- The source of an opened input, which is read now if it was not yet. -/
def beginReading (files : FileAccess m) : OpenedInput → Reaching m Source
  | .source source => return source
  | .unread reader place => readSource files reader place

/-- The name of the format that collects rows in memory, in any case of its letters. -/
def isMemory (format : String) : Bool :=
  format.toLower == "memory"

/-- The writer of a query, unless its rows are collected in memory. The output is created last. -/
def openOutput (job : Job) (files : FileAccess m) (output : Place)
    (defaults : List (String × Value)) : Reaching m (Option TextWriter) := do
  match job.query.target with
  | .expression text => throw (.unknownFormat (.noTarget text))
  | .format call =>
    if isMemory call.name then return none
    else
      let arguments ← .ofReporting (job.arguments .target defaults call)
      let writer ← .ofResult (TextWriter.ofCall call.name arguments)
      .ofFile (files.create output)
      return some writer

/-- Runs a query from its source to its target, with default options for both. -/
def runWithFiles (job : Job) (files : FileAccess m) (output : Place)
    (inputDefaults outputDefaults : List (String × Value)) : Reaching m Delivery := do
  let input ← job.openInput files inputDefaults
  let target ← job.openOutput files output outputDefaults
  let source ← beginReading files input
  match target with
  | none =>
    let (result, state) ← .ofReports
      ((job.runAll Writer.collector source).run.run (job.initial {}))
    let stats ← .ofResult result
    return ⟨some (Writer.collected state.writer), stats⟩
  | some writer =>
    let (result, state) ← .ofReports
      ((job.runAll TextWriter.toWriter source).run.run (job.initial (writer, [])))
    .ofAction (files.write output (String.join state.writer.2.reverse))
    let stats ← .ofResult result
    return ⟨none, stats⟩

end Job

end StreamQuery
