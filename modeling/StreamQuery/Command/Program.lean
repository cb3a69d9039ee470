import StreamQuery.Command.Arguments
import StreamQuery.Execution.Files
import StreamQuery.Format.OptionText
import StreamQuery.Settings

/-!
# The command

The command reads its settings, then its options, then the query, and runs it. The command line
goes before the environment and that before the settings. A command line without a meaning ends
the command with another code than an error does.
-/

namespace StreamQuery.Command

/-- What the command finds where it runs. -/
structure Surroundings (m : Type → Type) where
  files : FileAccess m
  environment : String → Option String
  /-- The directory of the settings of all programs. -/
  settingsDirectory : Option String
  clock : Calendar.DateTime

/-- The variables of the environment that the command looks at. -/
def environmentNames : List String :=
  ["ROWQL_WARNING_FLAG", "ROWQL_DEFAULT_TO", "XDG_CONFIG_HOME", "HOME"]

/-- The directory of the settings of all programs, as the environment tells it. -/
def settingsDirectory? (environment : String → Option String) : Option String :=
  match (environment "XDG_CONFIG_HOME").filter (·.startsWith "/") with
  | some directory => some directory
  | none => (environment "HOME").map (· ++ "/.config")

/-- How the command ends. -/
structure Ending where
  code : Nat
  error : Option String := none
  warnings : List Warning := []

/-- The line that shows an error. -/
def errorLine (message : String) : String :=
  "Error: " ++ message

/-- The lines that tell what happened. -/
def Ending.lines (ending : Ending) : List String :=
  (ending.warnings.map fun warning => "WARN " ++ warning.message) ++
    ending.error.toList.map errorLine

/-- The format of the output of a query without a target. -/
def defaultTarget : String := "csv"

/-- The wording of an error that ends the command; the cause of a file that cannot be read is told
once more. -/
def settingsErrorText : SettingsFault → String
  | .unreadable path fault =>
    (SettingsFault.unreadable path fault).message ++ ": " ++ fault.message
  | fault => fault.message

variable {m : Type → Type} [Monad m]

/-- The settings of a file. -/
def settingsOfInput (path : String) (input : Input) : Except SettingsFault Settings :=
  match input.failure, input.bytes.text? with
  | some fault, _ => .error (.unreadable path fault)
  | none, none => .error (.unreadable path .notText)
  | none, some text => Settings.ofToml path text

/-- The settings of the file that the command line names, or of the usual one if it is there. -/
def readSettings (surroundings : Surroundings m) (named : Option String) :
    m (Except SettingsFault Settings) := do
  match named, surroundings.settingsDirectory with
  | some path, _ =>
    match ← surroundings.files.opens (.file path) with
    | .ok () => return settingsOfInput path (← surroundings.files.read (.file path))
    | .error fault => return .error (.unreadable path fault)
  | none, some directory =>
    let path := directory ++ "/" ++ name ++ "/config.toml"
    match ← surroundings.files.opens (.file path) with
    | .ok () => return settingsOfInput path (← surroundings.files.read (.file path))
    | .error _ => return .ok {}
  | none, none => return .ok {}

/-- A run as arguments and settings describe it. -/
structure RunPlan where
  policy : WarningPolicy
  target : String
  inputOptions : List (String × Value)
  outputOptions : List (String × Value)

/-- The plan of arguments and settings, or the wording of what is wrong with them. -/
def RunPlan.ofArguments (arguments : Arguments) (settings : Settings) :
    Except String RunPlan := do
  settings.validate.mapError settingsErrorText
  let policy ← settings.warningPolicy.mapError settingsErrorText
  let input ← (OptionText.entries arguments.inputOptions).mapError OptionText.refusal
  let output ← (OptionText.entries arguments.outputOptions).mapError OptionText.refusal
  return {
    policy := (arguments.policy.or policy).getD .report
    target := settings.defaultTarget.getD defaultTarget
    inputOptions := insertEntries settings.inputOptions input
    outputOptions := insertEntries settings.outputOptions output }

/-- Where the output goes. -/
def outputPlace (arguments : Arguments) : Place :=
  match arguments.output with
  | some path => .file path
  | none => .standard

/-- Runs a query by its text. -/
def runQuery (surroundings : Surroundings m) (arguments : Arguments) (plan : RunPlan) :
    Reaching m Delivery := do
  let query ← .ofReporting (Query.parse plan.policy plan.target arguments.query)
  let job : Job := { query := query, policy := plan.policy, clock := surroundings.clock }
  job.runWithFiles surroundings.files (outputPlace arguments) plan.inputOptions
    plan.outputOptions

/-- The rows of a table as lines of JSON. -/
def tableLines (table : Table) : String :=
  String.join (table.objects.map fun row => row.toJson ++ "\n")

/-- Runs the query of arguments. -/
def runArguments (surroundings : Surroundings m) (arguments : Arguments) : m Ending := do
  let settings ← readSettings surroundings arguments.settings
  let plan := (settings.mapError settingsErrorText).bind fun settings =>
    RunPlan.ofArguments arguments (settings.withEnvironment surroundings.environment)
  match plan with
  | .error message => return { code := 1, error := some message }
  | .ok plan =>
    let (result, latest) ← (runQuery surroundings arguments plan).run.run []
    let warnings := if arguments.quiet then [] else latest.reverse
    match result with
    | .error error => return { code := 1, error := some error.message, warnings := warnings }
    | .ok delivery =>
      if let some table := delivery.table then
        surroundings.files.write .standard (tableLines table)
      return { code := 0, warnings := warnings }

/-- Runs the command. -/
def run (surroundings : Surroundings m) (arguments : List String) : m Ending := do
  match Request.ofArguments arguments with
  | .misuse => return { code := 2 }
  | .help => do
    surroundings.files.write .standard help
    return { code := 0 }
  | .version => do
    surroundings.files.write .standard versionLine
    return { code := 0 }
  | .run arguments => runArguments surroundings arguments

end StreamQuery.Command
