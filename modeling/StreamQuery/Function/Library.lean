import StreamQuery.Function.Calendar
import StreamQuery.Function.Collection
import StreamQuery.Function.Conversion
import StreamQuery.Function.Math
import StreamQuery.Function.Search
import StreamQuery.Function.Text

/-!
# The function library

The functions that expressions call by name, and the modules of functions. Names are looked up in
lower case. A null argument makes the result null, except for the functions that are about null.
-/

namespace StreamQuery

/-- A function called by its plain name. -/
inductive Builtin where
  | conversion (function : Conversion)
  | text (function : TextFunction)
  | math (function : MathFunction)
  | collection (function : CollectionFunction)
  deriving DecidableEq, Repr

namespace Builtin

/-- All plain functions. -/
def all : List Builtin :=
  Conversion.all.map conversion ++ TextFunction.all.map text ++ MathFunction.all.map math ++
    CollectionFunction.all.map collection

/-- The name of a function. -/
def name : Builtin → String
  | .conversion function => function.name
  | .text function => function.name
  | .math function => function.name
  | .collection function => function.name

/-- The function with a name in lower case. -/
def ofName? (name : String) : Option Builtin :=
  all.find? (·.name == name)

/-- Whether a function takes null arguments as they are. -/
def takesNull : Builtin → Bool
  | .conversion .int => false
  | .conversion .float => false
  | .conversion _ => true
  | .text .format => true
  | .collection .get => true
  | _ => false

/-- Applies a function to its arguments, null or not. -/
def apply (function : Builtin) (arguments : List Value) : Except Error Noted :=
  match function with
  | .conversion function => function.apply arguments
  | .text function => Conversion.silent (function.apply arguments)
  | .math function => Conversion.silent (function.apply arguments)
  | .collection function => Conversion.silent (function.apply arguments)

/-- Calls the function with a name. -/
def call (name : String) (arguments : List Value) : Except Error Noted :=
  match ofName? (Unicode.toLower name) with
  | none => .error (.eval (.undefinedName name))
  | some function =>
    if !function.takesNull && arguments.any Value.isNull then .ok ⟨.null, none⟩
    else function.apply arguments

end Builtin

/-- The modules of functions. -/
inductive Module where
  | math
  | patterns
  | json
  | datetime
  deriving DecidableEq, Repr

namespace Module

/-- All modules. -/
def all : List Module := [.math, .patterns, .json, .datetime]

/-- The name of a module. -/
def name : Module → String
  | .math => "math"
  | .patterns => "re"
  | .json => "json"
  | .datetime => "datetime"

/-- The module with a name. -/
def ofName? (name : String) : Option Module :=
  all.find? (·.name == name)

/-- The constants of a module. -/
def constants : Module → List (String × Value)
  | .math => MathFunction.constants
  | _ => []

/-- The function of a module with a name in lower case, if it has one; `clock` is the present
moment. -/
def function? (clock : Calendar.DateTime) (module : Module) (name : String) :
    Option (List Value → Except Error Value) :=
  match module with
  | .math => (MathFunction.all.find? (·.name == name)).map MathFunction.apply
  | .patterns => (SearchFunction.all.find? (·.name == name)).map SearchFunction.apply
  | .json => (DocumentFunction.all.find? (·.name == name)).map DocumentFunction.apply
  | .datetime =>
    (CalendarFunction.all.find? (·.name == name)).map (CalendarFunction.apply clock)

/-- Whether a function of a module takes null arguments as they are. -/
def takesNull (module function : String) : Bool :=
  module == Module.json.name && function == DocumentFunction.dumps.name

/-- Calls a function of a module, both by their names. A null argument is seen before either name
is looked up. -/
def call (clock : Calendar.DateTime) (module function : String) (arguments : List Value) :
    Except Error Value :=
  let lowered := Unicode.toLower function
  if !takesNull module lowered && arguments.any Value.isNull then .ok .null
  else match ofName? module with
    | none => .error (.moduleNotFound module)
    | some found => match found.function? clock lowered with
      | some apply => apply arguments
      | none => .error (.eval (.noAttribute module function))

end Module

end StreamQuery
