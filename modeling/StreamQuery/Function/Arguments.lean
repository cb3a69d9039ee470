import StreamQuery.Error

/-!
# Arguments of functions

Functions check the number of their arguments first and the kind of each argument when they use
it. A function is given here by the name that its messages show.
-/

namespace StreamQuery.Arguments

/-- The error of a wrong number of arguments. -/
def miscounted (function : String) (arity : Arity) (arguments : List Value) : Error :=
  .eval (.arguments function arity arguments.length)

/-- Runs a function of no arguments. -/
def none (function : String) (body : Except Error Value) (arguments : List Value) :
    Except Error Value :=
  match arguments with
  | [] => body
  | arguments => .error (miscounted function (.exactly 0) arguments)

/-- Runs a function of one argument. -/
def one (function : String) (body : Value → Except Error Value) (arguments : List Value) :
    Except Error Value :=
  match arguments with
  | [a] => body a
  | arguments => .error (miscounted function (.exactly 1) arguments)

/-- Runs a function of two arguments. -/
def two (function : String) (body : Value → Value → Except Error Value)
    (arguments : List Value) : Except Error Value :=
  match arguments with
  | [a, b] => body a b
  | arguments => .error (miscounted function (.exactly 2) arguments)

/-- Runs a function of three arguments. -/
def three (function : String) (body : Value → Value → Value → Except Error Value)
    (arguments : List Value) : Except Error Value :=
  match arguments with
  | [a, b, c] => body a b c
  | arguments => .error (miscounted function (.exactly 3) arguments)

/-- Runs a function of one or two arguments. -/
def oneOrTwo (function : String) (body : Value → Option Value → Except Error Value)
    (arguments : List Value) : Except Error Value :=
  match arguments with
  | [a] => body a Option.none
  | [a, b] => body a (some b)
  | arguments => .error (miscounted function (.between 1 2) arguments)

/-- Runs a function of two or three arguments. -/
def twoOrThree (function : String) (body : Value → Value → Option Value → Except Error Value)
    (arguments : List Value) : Except Error Value :=
  match arguments with
  | [a, b] => body a b Option.none
  | [a, b, c] => body a b (some c)
  | arguments => .error (miscounted function (.between 2 3) arguments)

/-- Runs a function of three or four arguments. -/
def threeOrFour (function : String)
    (body : Value → Value → Value → Option Value → Except Error Value)
    (arguments : List Value) : Except Error Value :=
  match arguments with
  | [a, b, c] => body a b c Option.none
  | [a, b, c, d] => body a b c (some d)
  | arguments => .error (miscounted function (.between 3 4) arguments)

/-- The error of an argument of the wrong kind. -/
def unexpected (function : String) (expected : Expectation) (argument : Value) : Error :=
  .type (.argument function expected argument.kind)

/-- An argument that has to be a number; booleans count as numbers. -/
def number (function : String) (argument : Value) : Except Error Float :=
  match argument.asFloat? with
  | some x => .ok x
  | Option.none => .error (unexpected function .number argument)

/-- An argument that has to be a string. -/
def text (function : String) (argument : Value) : Except Error String :=
  match argument with
  | .str s => .ok s
  | argument => .error (unexpected function .text argument)

/-- An argument that has to be a string, as its characters. -/
def chars (function : String) (argument : Value) : Except Error (List Char) :=
  (text function argument).map String.toList

/-- An argument that has to be an integer of the signed 64-bit range; booleans count as such. -/
def integer (function : String) (argument : Value) : Except Error Int :=
  match argument.asInt64? with
  | some n => .ok n
  | Option.none => .error (unexpected function .integer argument)

/-- An argument that has to be a list. -/
def list (function : String) (argument : Value) : Except Error (List Value) :=
  match argument with
  | .list items => .ok items
  | argument => .error (unexpected function .list argument)

/-- The parts of an argument that has to have some: items, characters or keys. -/
def iterable (function : String) (argument : Value) : Except Error (List Value) :=
  match argument with
  | .list items => .ok items
  | .str s => .ok (s.toList.map fun c => .str (String.singleton c))
  | .object entries => .ok (entries.map fun entry => .str entry.1)
  | argument => .error (unexpected function .iterable argument)

end StreamQuery.Arguments
