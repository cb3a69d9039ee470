import StreamQuery.Format.Csv
import StreamQuery.Format.Lines
import StreamQuery.Format.Pretty
import StreamQuery.Format.Sql

/-!
# Calls of formats

A call names a format and has evaluated arguments. It is resolved to a reader, which makes a source
of what can be read, or to a writer of texts.
-/

namespace StreamQuery

/-- Evaluated arguments of a call. -/
structure FormatArguments where
  positional : List Value := []
  options : List (String × Value) := []

/-- Where to read from or write to. -/
inductive Place where
  | standard
  | file (path : String)
  deriving DecidableEq, Repr

/-- The place that a reader is called with. -/
def FormatArguments.place (format : String) (arguments : FormatArguments) :
    Except FormatFault Place :=
  match arguments.positional with
  | [] => .ok .standard
  | [.null] => .ok .standard
  | [.str path] => .ok (.file path)
  | [_] => .error (.invalidOption (Unicode.toLower format) .reader "path" .text)
  | _ => .error (.tooManyArguments (Unicode.toLower format) .reader)

/-! ### Readers -/

/-- A reader. -/
inductive Reader where
  | csv (settings : Csv.ReaderSettings)
  | json
  | text

namespace Reader

/-- The reader of a format with options. -/
def ofCall (format : String) (options : List (String × Value)) : Except Error Reader :=
  let options := Options.ofCall format .reader options
  match Unicode.toUpper format with
  | "CSV" => do
    return .csv (← (options.takeAll Csv.ReaderSettings.take).mapError .format)
  | "JSON" => do
    (options.takeAll (pure ())).mapError .format
    return .json
  | "TEXT" => do
    (options.takeAll (pure ())).mapError .format
    return .text
  | _ => .error (.unknownFormat (.named .reader format))

/-- Whether a reader takes a sample before the first record is wanted. -/
def readsAhead : Reader → Bool
  | .csv _ => true
  | .json => false
  | .text => false

/-- The source that a reader makes of an input. -/
def source (reader : Reader) (input : Input) : Except Error Source :=
  match reader with
  | .csv settings => (settings.source input).mapError .format
  | .json => .ok (JsonLines.source input)
  | .text => .ok (PlainText.source input)

end Reader

/-! ### Writers -/

/-- A writer of texts. -/
inductive TextWriter where
  | csv (settings : Csv.WriterSettings)
  | json (columns : List String)
  | pretty (state : Pretty.State)
  | sql (state : Sql.State)

namespace TextWriter

/-- What is written because of an event, and the writer after it. -/
def write (writer : TextWriter) (event : Event) : String × TextWriter :=
  match writer with
  | .csv settings => (settings.write event, writer)
  | .json columns =>
    let (text, columns) := JsonLines.write columns event
    (text, .json columns)
  | .pretty state =>
    let (text, state) := state.write event
    (text, .pretty state)
  | .sql state =>
    let (text, state) := state.write event
    (text, .sql state)

/-- The text of some events. -/
def textOf (writer : TextWriter) : List Event → String
  | [] => ""
  | event :: rest =>
    let (text, writer) := writer.write event
    text ++ writer.textOf rest

/-- A writer as that of a run, which keeps the texts, the latest first. -/
def toWriter : Writer (TextWriter × List String) := fun event (writer, latest) =>
  let (text, writer) := writer.write event
  (.ok (), writer, text :: latest)

/-- The writer of a call. -/
def ofCall (format : String) (arguments : FormatArguments) : Except Error TextWriter :=
  let options := Options.ofCall format .writer arguments.options
  if !arguments.positional.isEmpty then
    .error (.format (.tooManyArguments (Unicode.toLower format) .writer))
  else match Unicode.toUpper format with
    | "CSV" => do
      return .csv (← (options.takeAll Csv.WriterSettings.take).mapError .format)
    | "JSON" => do
      (options.takeAll (pure ())).mapError .format
      return .json []
    | "PRETTY" => do
      let header ← (options.takeAll (Options.takeBool "header")).mapError .format
      return .pretty { header := header.getD true }
    | "SQL" => do
      let settings ← (options.takeAll Sql.Settings.take).mapError .format
      return .sql { settings := settings }
    | _ => .error (.unknownFormat (.named .writer format))

end TextWriter

end StreamQuery
