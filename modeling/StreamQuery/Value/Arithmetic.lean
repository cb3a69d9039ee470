import StreamQuery.Number.Machine
import StreamQuery.Text.Wildcard
import StreamQuery.Value.Access

/-!
# Operators on values

All operators but the lazy ones. Integer results are exact as long as they fit signed 64 bits and
become floats otherwise; a null operand makes the result null.
-/

namespace StreamQuery.Value

/-- The result of a checked operation, or else the float computed instead. -/
def ofChecked (exact : Option Int) (otherwise : Float) : Value :=
  match exact with
  | some n => ofInt n
  | none => ofFloat otherwise

/-- An arithmetic operator on two signed 64-bit integers. -/
def integerArithmeticOn {m : Type → Type} [Monad m] (machine : Machine m) (op : BinaryOp)
    (a b : Int) (fault : Error) : m (Except Error Value) :=
  let x := Number.floatOfInt a
  let y := Number.floatOfInt b
  match op with
  | .add => return .ok (ofExact (a + b) (x + y))
  | .subtract => return .ok (ofExact (a - b) (x - y))
  | .multiply => return .ok (ofExact (a * b) (x * y))
  | .divide =>
    return if b == 0 then .error (.eval .divisionByZero) else .ok (ofFloat (x / y))
  | .floorDivide =>
    if b == 0 then return .error (.eval .integerDivisionByZero)
    else
      match Number.checkedQuotient 64 a b, Number.checkedRemainder 64 a b with
      | some q, some r =>
        if r ≠ 0 ∧ (a < 0) ≠ (b < 0) then return .ok (ofInt (← machine.word 64 (q - 1)))
        else return .ok (ofInt q)
      | _, _ => return .ok (ofFloat (Number.floor (x / y)))
  | .modulus => do
    if b == 0 then return .error (.eval .integerModuloByZero)
    else
      let r ← machine.remainder a b
      if r ≠ 0 ∧ (r < 0) ≠ (b < 0) then return .ok (ofInt (← machine.word 64 (r + b)))
      else return .ok (ofInt r)
  | .exponent =>
    if b < 0 then return .ok (ofFloat (x.pow y))
    else
      let exact := if b < 0x100000000 then Number.checkedPower 64 a b.toNat else none
      return .ok (ofChecked exact (x.pow y))
  | _ => return .error fault

/-- An arithmetic operator on two signed 64-bit integers, where what is not checked wraps around. -/
def integerArithmetic (op : BinaryOp) (a b : Int) (fault : Error) : Except Error Value :=
  Id.run (integerArithmeticOn .wrapping op a b fault)

/-- An arithmetic operator on two floats. -/
def floatArithmetic (op : BinaryOp) (x y : Float) (fault : Error) : Except Error Value :=
  match op with
  | .add => .ok (ofFloat (x + y))
  | .subtract => .ok (ofFloat (x - y))
  | .multiply => .ok (ofFloat (x * y))
  | .divide =>
    if y == 0.0 then .error (.eval .floatDivisionByZero) else .ok (ofFloat (x / y))
  | .floorDivide =>
    if y == 0.0 then .error (.eval .floatDivisionByZero) else .ok (ofFloat (Number.floor (x / y)))
  | .modulus =>
    if y == 0.0 then .error (.eval .floatDivisionByZero)
    else .ok (ofFloat (x - y * Number.floor (x / y)))
  | .exponent => .ok (ofFloat (x.pow y))
  | _ => .error fault

/-- The error of an operator that does not take its operands. -/
def unsupported (op : BinaryOp) (left right : Value) : Error :=
  .type (.unsupported op left.kind right.kind)

/-- An arithmetic operator on numbers and booleans. -/
def arithmetic (op : BinaryOp) (left right : Value) : Except Error Value :=
  match left.asInt64?, right.asInt64? with
  | some a, some b => integerArithmetic op a b (unsupported op left right)
  | _, _ => match left.asFloat?, right.asFloat? with
    | some x, some y => floatArithmetic op x y (unsupported op left right)
    | _, _ => .error (unsupported op left right)

/-- The largest string, in bytes, and the longest list that an operator or `range` builds. -/
def sequenceLimit : Nat := 10000000

/-- A sequence of a size repeated, if the result is not too large. -/
def repeated {α : Type} (kind : Kind) (size : Nat) (times : Int) (items : List α) :
    Except Error (List α) :=
  let count := times.toNat
  if size * count ≤ sequenceLimit then
    .ok (if items.isEmpty then [] else (List.replicate count items).flatten)
  else .error (.eval (.repeatedTooLarge kind size count))

/-- A string repeated, if the result is not too large. -/
def repeatedText (times : Int) (text : String) : Except Error Value :=
  return .str (String.ofList (← repeated .str text.utf8ByteSize times text.toList))

/-- A sequence multiplied by a number, in either order. -/
def multiply (left right : Value) : Except Error Value :=
  match left, right with
  | .str text, n => match n.asInt64? with
    | some times => repeatedText times text
    | none => arithmetic .multiply left right
  | .list items, n => match n.asInt64? with
    | some times => return .list (← repeated .list items.length times items)
    | none => arithmetic .multiply left right
  | n, .str text => match n.asInt64? with
    | some times => repeatedText times text
    | none => arithmetic .multiply left right
  | n, .list items => match n.asInt64? with
    | some times => return .list (← repeated .list items.length times items)
    | none => arithmetic .multiply left right
  | _, _ => arithmetic .multiply left right

/-- Joined strings and lists, merged objects, or a sum. -/
def add (left right : Value) : Except Error Value :=
  match left, right with
  | .str a, .str b => .ok (.str (a ++ b))
  | .list a, .list b => .ok (.list (a ++ b))
  | .object a, .object b => .ok (.object (insertEntries a b))
  | _, _ => arithmetic .add left right

/-- Whether a text matches a wildcard pattern. Patterns that are too large are refused. -/
def like (text pattern : String) : Except Error Bool :=
  let elements := Wildcard.parse pattern.toList
  if Wildcard.patternSize elements > Wildcard.sizeLimit then .error (.eval .patternTooLong)
  else .ok (Wildcard.matchesAll elements text.toList)

/-- A wildcard match of two values, which have to be strings. -/
def likeValues (op : BinaryOp) (left right : Value) : Except Error Bool :=
  match left, right with
  | .str text, .str pattern => like text pattern
  | _, _ => .error (unsupported op left right)

/-- The 64-bit word of an integer. -/
def word (n : Int) : BitVec 64 := BitVec.ofInt 64 n

/-- A bitwise operator on two signed 64-bit integers. -/
def bitwise (op : BinaryOp) (a b : Int) (fault : Error) : Except Error Value :=
  match op with
  | .bitAnd => .ok (ofInt (word a &&& word b).toInt)
  | .bitOr => .ok (ofInt (word a ||| word b).toInt)
  | .bitXor => .ok (ofInt (word a ^^^ word b).toInt)
  | .shiftLeft =>
    if 0 ≤ b ∧ b < 64 then .ok (ofInt (word a <<< b.toNat).toInt) else .error (.eval .shiftCount)
  | .shiftRight =>
    if 0 ≤ b ∧ b < 64 then .ok (ofInt ((word a).sshiftRight b.toNat).toInt)
    else .error (.eval .shiftCount)
  | _ => .error fault

/-- A bitwise operator on two values, which have to be integers or booleans. -/
def bitwiseValues (op : BinaryOp) (left right : Value) : Except Error Value :=
  match left.asInt64?, right.asInt64? with
  | some a, some b => bitwise op a b (unsupported op left right)
  | _, _ => .error (unsupported op left right)

/-- An operator on two values that are not null. -/
def applyStrict (op : BinaryOp) (left right : Value) : Except Error Value :=
  match op with
  | .equal => .ok (.bool (equal left right))
  | .notEqual => .ok (.bool !(equal left right))
  | .less => return .bool ((← comparison op left right) == .lt)
  | .lessOrEqual => return .bool ((← comparison op left right) != .gt)
  | .greater => return .bool ((← comparison op left right) == .gt)
  | .greaterOrEqual => return .bool ((← comparison op left right) != .lt)
  | .like => return .bool (← likeValues op left right)
  | .notLike => return .bool !(← likeValues op left right)
  | .add => add left right
  | .multiply => multiply left right
  | .subtract | .divide | .floorDivide | .modulus | .exponent => arithmetic op left right
  | .bitAnd | .bitOr | .bitXor | .shiftLeft | .shiftRight => bitwiseValues op left right
  | .member | .notMember | .conjunction | .disjunction | .coalesce =>
    .error (.eval (.lazyOperator op))

/-- A binary operator on two values. Membership takes null; every other operator gives null for
a null operand. -/
def applyBinary (op : BinaryOp) (left right : Value) : Except Error Value :=
  match op with
  | .member => return .bool (← contains right left)
  | .notMember => return .bool !(← contains right left)
  | _ => if left.isNull || right.isNull then .ok .null else applyStrict op left right

/-- A unary operator on a value. -/
def applyUnary (op : UnaryOp) (value : Value) : Except Error Value :=
  if value.isNull then .ok .null
  else match op, value with
    | .not, _ => .ok (.bool !value.truthy)
    | .negate, .int n =>
      if InInt64 n.val then .ok (ofExact (-n.val) (-(Number.floatOfInt n.val)))
      else .ok (ofFloat (-(Number.floatOfInt n.val)))
    | .negate, .float x => .ok (ofFloat (-x.val))
    | .negate, .bool b => .ok (ofInt (if b then -1 else 0))
    | .plus, .int n => .ok (.int n)
    | .plus, .float x => .ok (.float x)
    | .plus, .bool b => .ok (ofInt (if b then 1 else 0))
    | .bitNot, _ => match value.asInt64? with
      | some n => .ok (ofInt (-n - 1))
      | none => .error (.type (.badOperand '~' value.kind))
    | .negate, _ => .error (.type (.badOperand '-' value.kind))
    | .plus, _ => .error (.type (.badOperand '+' value.kind))

end StreamQuery.Value
