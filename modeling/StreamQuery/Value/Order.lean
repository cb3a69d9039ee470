import StreamQuery.Error
import StreamQuery.Value.Basic

/-!
# Equality and order of values

Equality compares numbers by value, whatever their kind. `Value.order` relates all values: numbers
by size, strings by their characters, lists item by item, and different kinds by a rank.
`Value.comparison?` is the stricter order of the comparison operators.
-/

namespace StreamQuery.Value

/-- The order of two floats; floats without an order count as equal. -/
def floatOrder (x y : Float) : Ordering :=
  if x < y then .lt else if x > y then .gt else .eq

/-- The order of two numbers: exact for signed 64-bit integers, else as floats. -/
def numberOrder (left right : Value) : Ordering :=
  match left, right with
  | .int a, .int b =>
    if InInt64 a.val ∧ InInt64 b.val then compare a.val b.val
    else floatOrder (Number.floatOfInt a.val) (Number.floatOfInt b.val)
  | _, _ => floatOrder (left.asFloat?.getD 0.0) (right.asFloat?.getD 0.0)

/-- Equality of two numbers: exact for signed 64-bit integers, else as floats. -/
def numberEqual (left right : Value) : Bool :=
  match left, right with
  | .int a, .int b =>
    if InInt64 a.val ∧ InInt64 b.val then a.val == b.val
    else Number.floatOfInt a.val == Number.floatOfInt b.val
  | _, _ => left.asFloat?.getD 0.0 == right.asFloat?.getD 0.0

/-- Whether a value is a number. -/
def isNumber : Value → Bool
  | .int _ => true
  | .float _ => true
  | _ => false

mutual

/-- Equality of values. Objects are equal when they have equal values under the same keys. -/
def equal : Value → Value → Bool
  | .null, right => right.isNull
  | .bool a, right => match right with
    | .bool b => a == b
    | _ => false
  | .int a, right => right.isNumber && numberEqual (.int a) right
  | .float a, right => right.isNumber && numberEqual (.float a) right
  | .str a, right => match right with
    | .str b => a == b
    | _ => false
  | .list a, right => match right with
    | .list b => equalItems a b
    | _ => false
  | .object a, right => match right with
    | .object b => a.length == b.length && equalEntries a b
    | _ => false
termination_by structural left => left

/-- Equality of two lists, item by item. -/
def equalItems : List Value → List Value → Bool
  | [], right => right.isEmpty
  | a :: left, right => match right with
    | b :: right => equal a b && equalItems left right
    | [] => false
termination_by structural left => left

/-- Whether every entry has an equal value under its key. -/
def equalEntries : List (String × Value) → List (String × Value) → Bool
  | [], _ => true
  | (key, a) :: left, right =>
    (match lookup? key right with
      | some b => equal a b
      | none => false) && equalEntries left right
termination_by structural left => left

end

/-- The place of a value's kind among the kinds. -/
def rank : Value → Nat
  | .null => 0
  | .bool _ => 1
  | .int _ => 2
  | .float _ => 2
  | .str _ => 3
  | .list _ => 4
  | .object _ => 5

mutual

/-- The order of all values. Objects are ordered by their number of entries. -/
def order : Value → Value → Ordering
  | .null, right => compare 0 right.rank
  | .bool a, right => match right with
    | .bool b => compare a.toNat b.toNat
    | right => compare 1 right.rank
  | .int a, right => if right.isNumber then numberOrder (.int a) right else compare 2 right.rank
  | .float a, right =>
    if right.isNumber then numberOrder (.float a) right else compare 2 right.rank
  | .str a, right => match right with
    | .str b => compare a b
    | right => compare 3 right.rank
  | .list a, right => match right with
    | .list b => orderItems a b
    | right => compare 4 right.rank
  | .object a, right => match right with
    | .object b => compare a.length b.length
    | right => compare 5 right.rank
termination_by structural left => left

/-- The order of two lists: by the first items that differ, else by length. -/
def orderItems : List Value → List Value → Ordering
  | [], right => if right.isEmpty then .eq else .lt
  | a :: left, right => match right with
    | b :: right => (order a b).then (orderItems left right)
    | [] => .gt
termination_by structural left => left

end

/-- Whether a value is an integer of the signed 64-bit range or a boolean. -/
def isInt64 (value : Value) : Bool :=
  value.asInt64?.isSome

/-- Whether the comparison operators take two values. -/
def comparable : Value → Value → Bool
  | .str _, .str _ => true
  | .list _, .list _ => true
  | left, right => left.asFloat?.isSome && right.asFloat?.isSome

/-- The order the comparison operators see; values of different kinds have none, numbers and
booleans apart. -/
def comparison (op : BinaryOp) (left right : Value) : Except Error Ordering :=
  if !comparable left right then .error (.type (.notOrdered op left.kind right.kind))
  else match left.asInt64?, right.asInt64? with
    | some a, some b => .ok (compare a b)
    | _, _ => match left.asFloat?, right.asFloat? with
      | some x, some y => .ok (floatOrder x y)
      | _, _ => .ok (order left right)

end StreamQuery.Value
