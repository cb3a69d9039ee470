import StreamQuery.Function.Arguments
import StreamQuery.Value.Arithmetic

/-!
# Mathematical functions

Rounding, powers, logarithms and trigonometry on floats, and extremes and sums of lists.
-/

namespace StreamQuery

/-- The mathematical functions. -/
inductive MathFunction where
  | abs
  | round
  | floor
  | ceil
  | trunc
  | sqrt
  | pow
  | exp
  | log
  | log10
  | log2
  | sin
  | cos
  | tan
  | asin
  | acos
  | atan
  | atan2
  | degrees
  | radians
  | min
  | max
  | sum
  deriving DecidableEq, Repr

namespace MathFunction

/-- All mathematical functions. -/
def all : List MathFunction :=
  [.abs, .round, .floor, .ceil, .trunc, .sqrt, .pow, .exp, .log, .log10, .log2, .sin, .cos, .tan,
    .asin, .acos, .atan, .atan2, .degrees, .radians, .min, .max, .sum]

/-- The name of a function. -/
def name : MathFunction → String
  | .abs => "abs"
  | .round => "round"
  | .floor => "floor"
  | .ceil => "ceil"
  | .trunc => "trunc"
  | .sqrt => "sqrt"
  | .pow => "pow"
  | .exp => "exp"
  | .log => "log"
  | .log10 => "log10"
  | .log2 => "log2"
  | .sin => "sin"
  | .cos => "cos"
  | .tan => "tan"
  | .asin => "asin"
  | .acos => "acos"
  | .atan => "atan"
  | .atan2 => "atan2"
  | .degrees => "degrees"
  | .radians => "radians"
  | .min => "min"
  | .max => "max"
  | .sum => "sum"

/-- The ratio of a circle's circumference to its diameter. -/
def pi : Float := 3.141592653589793

/-- The constants by name. -/
def constants : List (String × Value) :=
  [("pi", .ofFloat pi), ("e", .ofFloat 2.718281828459045), ("tau", .ofFloat 6.283185307179586)]

/-- The integer part as a float. -/
def truncated (x : Float) : Float :=
  if x < 0.0 then x.ceil else Number.floor x

/-- The nearest whole float; a half goes to the even one. -/
def roundHalfEven (x : Float) : Float :=
  let rounded := x.round
  let isOdd := rounded - 2.0 * Number.floor (rounded / 2.0) != 0.0
  if (x - truncated x).abs == 0.5 && isOdd then
    rounded - (if x < 0.0 then -1.0 else 1.0)
  else rounded

/-- A whole float as an integer, if its magnitude is below `2 ^ 63`. -/
def toInteger (x : Float) : Value :=
  if x.isFinite && x.abs < Number.floatOfInt 0x8000000000000000 then .ofInt (Number.truncate x)
  else .ofFloat x

/-- Multiplies by `factor` for every binary digit of an exponent that is set. -/
def powerOf (factor result : Float) (exponent : Nat) (fuel : Nat) : Float :=
  match fuel with
  | 0 => result
  | fuel + 1 =>
    let result := if exponent % 2 = 1 then result * factor else result
    if exponent / 2 = 0 then result else powerOf (factor * factor) result (exponent / 2) fuel

/-- The power of ten by repeated squaring, of the exponent's low 32 bits. -/
def powerOfTen (exponent : Int) : Float :=
  let exponent := exponent.bmod 0x100000000
  let power := powerOf 10.0 1.0 exponent.natAbs 33
  if exponent < 0 then 1.0 / power else power

/-- A number above zero. -/
def positive (x : Float) : Except Error Float :=
  if x ≤ 0.0 then .error (.eval .mathDomain) else .ok x

/-- A number from minus one to one. -/
def sine (x : Float) : Except Error Float :=
  if -1.0 ≤ x && x ≤ 1.0 then .ok x else .error (.eval .mathDomain)

/-- The magnitude of a number; that of an integer is one if it fits. -/
def magnitude (x : Value) : Except Error Value :=
  match x with
  | .int n =>
    if InInt64 n.val then
      .ok (.ofExact n.val.natAbs (Number.floatOfInt n.val).abs)
    else .ok (.ofFloat (Number.floatOfInt n.val).abs)
  | x => return .ofFloat (← Arguments.number "abs" x).abs

/-- A number rounded to the given number of decimal places. -/
def rounded (x : Value) (places : Option Value) : Except Error Value := do
  let x ← Arguments.number "round" x
  match places with
  | none => return toInteger (roundHalfEven x)
  | some places =>
    let factor := powerOfTen (← Arguments.integer "round" places)
    return .ofFloat (roundHalfEven (x * factor) / factor)

/-- The natural logarithm of a number, or its logarithm to a base. -/
def logarithm (x : Value) (base : Option Value) : Except Error Value := do
  let x ← positive (← Arguments.number "log" x)
  match base with
  | none => return .ofFloat x.log
  | some base => return .ofFloat (x.log / (← positive (← Arguments.number "log" base)).log)

/-- The first of the values that no other one surpasses; null values do not count. -/
def extreme (surpasses : Ordering) (items : List Value) : Value :=
  match items.filter (!·.isNull) with
  | [] => .null
  | first :: rest =>
    rest.foldl (fun best item => if item.order best == surpasses then item else best) first

/-- The values that an extreme is taken of: the items of a single list, or all arguments. -/
def candidates (function : String) : List Value → Except Error (List Value)
  | [] => .error (.eval (.noCandidate function))
  | [single] => Arguments.list function single
  | arguments => .ok arguments

/-- The sum of a list; null items do not count. -/
def total (items : Value) : Except Error Value := do
  let items ← Arguments.list "sum" items
  (items.filter (!·.isNull)).foldlM (Value.applyBinary .add) (.ofInt 0)

/-- Applies a function to its arguments. -/
def apply (function : MathFunction) : List Value → Except Error Value :=
  let name := function.name
  let number := Arguments.number name
  let plain (f : Float → Float) : List Value → Except Error Value :=
    Arguments.one name fun x => return .ofFloat (f (← number x))
  let whole (f : Float → Float) : List Value → Except Error Value :=
    Arguments.one name fun x => return toInteger (f (← number x))
  match function with
  | .abs => Arguments.one name magnitude
  | .round => Arguments.oneOrTwo name rounded
  | .floor => whole Number.floor
  | .ceil => whole Float.ceil
  | .trunc => whole truncated
  | .sqrt => Arguments.one name fun x => do
    let x ← number x
    if x < 0.0 then .error (.eval .mathDomain) else return .ofFloat x.sqrt
  | .pow => Arguments.two name fun x y => do
    let x ← number x
    return .ofFloat (x.pow (← number y))
  | .exp => plain Float.exp
  | .log => Arguments.oneOrTwo name logarithm
  | .log10 => Arguments.one name fun x => return .ofFloat (← positive (← number x)).log10
  | .log2 => Arguments.one name fun x => return .ofFloat (← positive (← number x)).log2
  | .sin => plain Float.sin
  | .cos => plain Float.cos
  | .tan => plain Float.tan
  | .asin => Arguments.one name fun x => return .ofFloat (← sine (← number x)).asin
  | .acos => Arguments.one name fun x => return .ofFloat (← sine (← number x)).acos
  | .atan => plain Float.atan
  | .atan2 => Arguments.two name fun y x => do
    let y ← number y
    return .ofFloat (y.atan2 (← number x))
  | .degrees => plain (· * (180.0 / pi))
  | .radians => plain (· * (pi / 180.0))
  | .min => fun arguments => return extreme .lt (← candidates name arguments)
  | .max => fun arguments => return extreme .gt (← candidates name arguments)
  | .sum => Arguments.one name total

end MathFunction

end StreamQuery
