import StreamQuery.Warning

/-!
# The command line

The texts of the command, and how its arguments are read.
-/

/-!
## Texts of the command

The name and the version of the command, and the help that it shows.
-/

namespace StreamQuery.Command

/-- The name of the command. -/
def name : String := "rowql"

/-- The version of the command. -/
def version : String := "0.9.0"

/-- The lines of the help. -/
def helpLines : List String :=
  ["Run a SQL-shaped QUERY over CSV, JSON lines or text data",
    "",
    "Usage: " ++ name ++ " [OPTIONS] <QUERY>",
    "",
    "Arguments:",
    "  <QUERY>  The query to run",
    "",
    "Options:",
    "  -I <OPTION=VALUE>",
    "          Input option as 'option=value' (e.g. -Idelimiter=';' -Iheader=False)",
    "  -O <OPTION=VALUE>",
    "          Output option as 'option=value' (e.g. -Oheader=False)",
    "  -W, --warning-flag <WARNING_FLAG>",
    "          Turn warnings into errors, or let them pass (default) [possible values: default, error]",
    "  -v, --verbose...",
    "          More log output (-v info, -vv debug)",
    "  -q, --quiet",
    "          Only log errors",
    "  -u, --unbuffered",
    "          Flush output after every row",
    "  -o, --output <FILE>",
    "          Write output to FILE instead of standard output",
    "      --config <FILE>",
    "          Config file (defaults to <config dir>/rowql/config.toml)",
    "  -h, --help",
    "          Print help",
    "  -V, --version",
    "          Print version",
    "",
    "QUERY:",
    "  [ IMPORT module [ AS identifier ] [, ...] ]",
    "  SELECT [ DISTINCT | PARTIALS ]",
    "      [ * | expression [ AS output_column_name ] [, ...] ]",
    "      [ FROM csv | json | text | expression [ EXPLODE path ] ]",
    "      [ WHERE expression ]",
    "      [ GROUP BY output_column_number | expression [, ...] ]",
    "      [ ORDER BY output_column_number | expression",
    "          [ ASC | DESC ] [ NULLS \x7b FIRST | LAST \x7d ] [, ...] ]",
    "      [ LIMIT row_count ]",
    "      [ OFFSET num_rows_to_skip ]",
    "      [ TO csv | json | pretty | sql | memory ]"]

/-- The help. -/
def help : String :=
  String.join (helpLines.map (· ++ "\n"))

/-- The line that tells the version. -/
def versionLine : String :=
  name ++ " " ++ version ++ "\n"

/-!
## Arguments of the command

A command line holds one query and options, in any order. Options have a letter, a name or both;
letters without values may be joined. An option takes one value and may be given once, except
those that collect values and the one that is counted.
-/

/-- The arguments of a run. -/
structure Arguments where
  query : String
  inputOptions : List String := []
  outputOptions : List String := []
  policy : Option WarningPolicy := none
  verbosity : Nat := 0
  quiet : Bool := false
  unbuffered : Bool := false
  output : Option String := none
  settings : Option String := none

/-- What a command line asks for. -/
inductive Request where
  | run (arguments : Arguments)
  | help
  | version
  /-- The command line has no meaning. -/
  | misuse

/-- Options without a value. -/
inductive Switch where
  | verbose
  | quiet
  | unbuffered
  | help
  | version

/-- Options with a value. -/
inductive Parameter where
  | input
  | output
  | warnings
  | file
  | settings

/-- An option. -/
inductive OptionKind where
  | switch (switch : Switch)
  | parameter (parameter : Parameter)

/-- The option with a letter. -/
def OptionKind.ofLetter? : Char → Option OptionKind
  | 'I' => some (.parameter .input)
  | 'O' => some (.parameter .output)
  | 'W' => some (.parameter .warnings)
  | 'v' => some (.switch .verbose)
  | 'q' => some (.switch .quiet)
  | 'u' => some (.switch .unbuffered)
  | 'o' => some (.parameter .file)
  | 'h' => some (.switch .help)
  | 'V' => some (.switch .version)
  | _ => none

/-- The option with a name. -/
def OptionKind.ofName? : String → Option OptionKind
  | "warning-flag" => some (.parameter .warnings)
  | "verbose" => some (.switch .verbose)
  | "quiet" => some (.switch .quiet)
  | "unbuffered" => some (.switch .unbuffered)
  | "output" => some (.parameter .file)
  | "config" => some (.parameter .settings)
  | "help" => some (.switch .help)
  | "version" => some (.switch .version)
  | _ => none

/-- Arguments so far, of which the query may be missing. -/
structure Draft where
  query : Option String := none
  arguments : Arguments := { query := "" }

namespace Draft

/-- The arguments with a query, of which there is only one. -/
def withQuery (query : String) (draft : Draft) : Except Request Draft :=
  if draft.query.isSome then .error .misuse else .ok { draft with query := some query }

/-- The arguments with an option that has no value. -/
def withSwitch (switch : Switch) (draft : Draft) : Except Request Draft :=
  let arguments := draft.arguments
  match switch with
  | .verbose =>
    .ok { draft with arguments := { arguments with verbosity := arguments.verbosity + 1 } }
  | .quiet =>
    if arguments.quiet then .error .misuse
    else .ok { draft with arguments := { arguments with quiet := true } }
  | .unbuffered =>
    if arguments.unbuffered then .error .misuse
    else .ok { draft with arguments := { arguments with unbuffered := true } }
  | .help => .error .help
  | .version => .error .version

/-- What becomes of warnings, as the command line names it. -/
def policy? : String → Option WarningPolicy
  | "default" => some .report
  | "error" => some .fail
  | _ => none

/-- The arguments with the value of an option. A file has a name. -/
def withParameter (parameter : Parameter) (value : String) (draft : Draft) :
    Except Request Draft :=
  let arguments := draft.arguments
  match parameter with
  | .input =>
    .ok { draft with
      arguments := { arguments with inputOptions := arguments.inputOptions ++ [value] } }
  | .output =>
    .ok { draft with
      arguments := { arguments with outputOptions := arguments.outputOptions ++ [value] } }
  | .warnings =>
    match arguments.policy, policy? value with
    | none, some policy =>
      .ok { draft with arguments := { arguments with policy := some policy } }
    | _, _ => .error .misuse
  | .file =>
    if arguments.output.isSome || value.isEmpty then .error .misuse
    else .ok { draft with arguments := { arguments with output := some value } }
  | .settings =>
    if arguments.settings.isSome || value.isEmpty then .error .misuse
    else .ok { draft with arguments := { arguments with settings := some value } }

/-- What the arguments ask for. Being quiet and being verbose exclude each other. -/
def finish (draft : Draft) : Request :=
  match draft.query with
  | none => .misuse
  | some query =>
    if draft.arguments.quiet && draft.arguments.verbosity > 0 then .misuse
    else .run { draft.arguments with query := query }

end Draft

/-- The value that stands right after the letter of an option, if one does. -/
def joinedValue? : List Char → Option String
  | [] => none
  | '=' :: rest => some (String.ofList rest)
  | value => some (String.ofList value)

/-- Reads joined letters; an option at the end whose value is missing is given back. -/
def readLetters (draft : Draft) : List Char → Except Request (Draft × Option Parameter)
  | [] => .ok (draft, none)
  | letter :: rest =>
    match OptionKind.ofLetter? letter with
    | none => .error .misuse
    | some (.switch switch) => do readLetters (← draft.withSwitch switch) rest
    | some (.parameter parameter) =>
      match joinedValue? rest with
      | some value => do return (← draft.withParameter parameter value, none)
      | none => .ok (draft, some parameter)

/-- Reads a name with the value that an equals sign may join to it; an option whose value is
missing is given back. -/
def readName (draft : Draft) (text : List Char) : Except Request (Draft × Option Parameter) :=
  let name := text.takeWhile (· != '=')
  match OptionKind.ofName? (String.ofList name), text.drop name.length with
  | some (.switch switch), [] => do return (← draft.withSwitch switch, none)
  | some (.parameter parameter), [] => .ok (draft, some parameter)
  | some (.parameter parameter), _ :: value => do
    return (← draft.withParameter parameter (String.ofList value), none)
  | _, _ => .error .misuse

/-- Whether an argument has the form of an option. -/
def isOption : List Char → Bool
  | '-' :: _ :: _ => true
  | _ => false

/-- Reads arguments. `waiting` is an option whose value comes next, and `plain` tells that no more
options follow. -/
def readArguments (draft : Draft) (waiting : Option Parameter) (plain : Bool) :
    List String → Except Request Draft
  | [] => if waiting.isSome then .error .misuse else .ok draft
  | argument :: rest =>
    match waiting with
    | some parameter =>
      if plain || isOption argument.toList then .error .misuse
      else do readArguments (← draft.withParameter parameter argument) none plain rest
    | none =>
      if plain then do readArguments (← draft.withQuery argument) none plain rest
      else match argument.toList with
        | ['-', '-'] => readArguments draft none true rest
        | '-' :: '-' :: text => do
          let (draft, waiting) ← readName draft text
          readArguments draft waiting plain rest
        | '-' :: letter :: letters => do
          let (draft, waiting) ← readLetters draft (letter :: letters)
          readArguments draft waiting plain rest
        | _ => do readArguments (← draft.withQuery argument) none plain rest

/-- What a command line asks for. -/
def Request.ofArguments (arguments : List String) : Request :=
  match readArguments {} none false arguments with
  | .ok draft => draft.finish
  | .error request => request

end StreamQuery.Command
