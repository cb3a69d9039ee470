import StreamQuery.Function.Arguments
import StreamQuery.Json.Reader
import StreamQuery.Number.Reading
import StreamQuery.Text.Search
import StreamQuery.Value.Order

/-!
# Conversions

Functions between kinds of values, and functions about null. What cannot be converted becomes
null, with a warning.
-/

namespace StreamQuery

/-- A value, and the warning that comes with it. -/
structure Noted where
  value : Value
  warning : Option Warning := none

/-- The conversions and the functions about null. -/
inductive Conversion where
  | coalesce
  | ifnull
  | nullif
  | isNull
  | int
  | float
  | str
  | bool
  deriving DecidableEq, Repr

namespace Conversion

/-- All conversions. -/
def all : List Conversion :=
  [.coalesce, .ifnull, .nullif, .isNull, .int, .float, .str, .bool]

/-- The name of a function. -/
def name : Conversion → String
  | .coalesce => "coalesce"
  | .ifnull => "ifnull"
  | .nullif => "nullif"
  | .isNull => "is_null"
  | .int => "int"
  | .float => "float"
  | .str => "str"
  | .bool => "bool"

/-- The integer of a value; strings are read in the given radix, with `_` allowed anywhere. -/
def toInteger? (radix : Nat) : Value → Option Value
  | .null => some .null
  | .bool b => some (.ofNat b.toNat)
  | .int n => if InInt64 n.val then some (.int n) else none
  | .float x =>
    let whole := Number.truncate x.val
    if whole.natAbs < 0x8000000000000000 then some (.ofInt whole) else none
  | .str s =>
    let cleaned := (Text.trim Unicode.isWhitespace s.toList).filter (· != '_')
    (Number.readInt64? radix cleaned).map Value.ofInt
  | _ => none

/-- The float of a value. Texts of what is not finite give null. -/
def toFloat? : Value → Option Value
  | .null => some .null
  | .str s => (Number.readFloat? (Text.trim Unicode.isWhitespace s.toList)).map Value.ofFloat
  | value => value.asFloat?.map Value.ofFloat

/-- The radix that an argument asks for: the low 32 bits of a natural number, else ten. -/
def radixOf : Option Value → Nat
  | some (.int n) => if 0 ≤ n.val then n.val.toNat % 0x100000000 else 10
  | _ => 10

/-- A conversion's result, or null with a warning. -/
def noted (value : Value) (target : Kind) (converted : Option Value) : Noted :=
  match converted with
  | some result => ⟨result, none⟩
  | none => ⟨.null, some (.unconvertible value target)⟩

/-- A function that never warns. -/
def silent (result : Except Error Value) : Except Error Noted :=
  result.map (⟨·, none⟩)

/-- The text of a value; null has none. -/
def toText (value : Value) : Value :=
  if value.isNull then .null else .str value.display

/-- Applies a function to its arguments. -/
def apply (function : Conversion) (arguments : List Value) : Except Error Noted :=
  let name := function.name
  match function with
  | .coalesce => silent (.ok ((arguments.find? (!·.isNull)).getD .null))
  | .ifnull => silent (Arguments.two name (fun a b => .ok (if a.isNull then b else a)) arguments)
  | .nullif =>
    silent (Arguments.two name (fun a b => .ok (if a.equal b then .null else a)) arguments)
  | .isNull => silent (Arguments.one name (fun a => .ok (.bool a.isNull)) arguments)
  | .int => match arguments with
    | [value] => .ok (noted value .int (toInteger? 10 value))
    | [value, radix] => .ok (noted value .int (toInteger? (radixOf (some radix)) value))
    | arguments => .error (Arguments.miscounted name (.between 1 2) arguments)
  | .float => match arguments with
    | [value] => .ok (noted value .float (toFloat? value))
    | arguments => .error (Arguments.miscounted name (.exactly 1) arguments)
  | .str => silent (Arguments.one name (fun a => .ok (toText a)) arguments)
  | .bool => silent (Arguments.one name (fun a => .ok (.bool a.truthy)) arguments)

end Conversion

/-!
## Document functions

Functions between values and JSON texts.
-/

/-- The functions on JSON texts. -/
inductive DocumentFunction where
  | dumps
  | loads
  deriving DecidableEq, Repr

namespace DocumentFunction

/-- All functions on JSON texts. -/
def all : List DocumentFunction := [.dumps, .loads]

/-- The name of a function. -/
def name : DocumentFunction → String
  | .dumps => "dumps"
  | .loads => "loads"

/-- Applies a function to its arguments. -/
def apply (function : DocumentFunction) : List Value → Except Error Value :=
  let name := function.name
  match function with
  | .dumps => Arguments.oneOrTwo name fun value pretty =>
    return .str (if pretty.any (!·.isNull) then value.toIndentedJson else value.toJson)
  | .loads => Arguments.one name fun text => do
    match Json.read? (← Arguments.text name text) with
    | some value => return value
    | none => .error (.eval .invalidJson)

end DocumentFunction

end StreamQuery
