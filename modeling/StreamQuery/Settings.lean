import StreamQuery.Query.Item
import StreamQuery.Toml.Reader
import StreamQuery.Warning

/-!
# Settings

Settings come from a TOML document, and the environment goes before it. They name what becomes of
warnings, the target of queries without one, and default options of readers and writers.
-/

namespace StreamQuery

/-- The settings. -/
structure Settings where
  warningFlag : Option String := none
  defaultTarget : Option String := none
  inputOptions : List (String × Value) := []
  outputOptions : List (String × Value) := []

/-- What is wrong with settings. -/
inductive SettingsFault where
  | unreadable (path : String) (fault : FileFault)
  | malformed (path : String)
  | warningFlag (flag : String)
  | defaultTarget (target : String)

/-- The wording of a settings fault. -/
def SettingsFault.message : SettingsFault → String
  | .unreadable path fault => "Could not read config file " ++ path ++ ": " ++ fault.message
  | .malformed path => "Invalid config file " ++ path
  | .warningFlag flag =>
    "Invalid config value: warning_flag must be 'default' or 'error', got '" ++ flag ++ "'"
  | .defaultTarget target =>
    "Invalid config value: default_to '" ++ target ++ "' is not one of " ++
      ", ".intercalate (Target.writable.map String.toLower)

namespace Settings

/-- The text of an entry that may be missing. -/
def text? (key : String) (entries : List (String × Value)) : Option (Option String) :=
  match lookup? key entries with
  | none => some none
  | some (.str text) => some (some text)
  | some _ => none

/-- The options of an entry that may be missing. -/
def options? (key : String) (entries : List (String × Value)) : Option (List (String × Value)) :=
  match lookup? key entries with
  | none => some []
  | some (.object options) => some options
  | some _ => none

/-- The settings of a document, if it has their form. Other entries are ignored. -/
def ofEntries? (entries : List (String × Value)) : Option Settings := do
  return {
    warningFlag := ← text? "warning_flag" entries
    defaultTarget := ← text? "default_to" entries
    inputOptions := ← options? "input_options" entries
    outputOptions := ← options? "output_options" entries }

/-- The settings of the text of a file. -/
def ofToml (path text : String) : Except SettingsFault Settings :=
  match (Toml.read? text).bind ofEntries? with
  | some settings => .ok settings
  | none => .error (.malformed path)

/-- The settings with those of the environment put first. -/
def withEnvironment (environment : String → Option String) (settings : Settings) : Settings :=
  { settings with
    warningFlag := (environment "ROWQL_WARNING_FLAG").or settings.warningFlag
    defaultTarget := (environment "ROWQL_DEFAULT_TO").or settings.defaultTarget }

/-- What becomes of warnings, if the settings say so. -/
def warningPolicy (settings : Settings) : Except SettingsFault (Option WarningPolicy) :=
  match settings.warningFlag with
  | none => .ok none
  | some flag => match WarningPolicy.ofName? flag with
    | some policy => .ok (some policy)
    | none => .error (.warningFlag flag)

/-- Refuses settings with a value that has no meaning. -/
def validate (settings : Settings) : Except SettingsFault Unit := do
  let _ ← settings.warningPolicy
  match settings.defaultTarget with
  | none => return ()
  | some target =>
    if Target.writable.contains target.toUpper then return ()
    else throw (.defaultTarget target)

end Settings

end StreamQuery
