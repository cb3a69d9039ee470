/-!
# Operators

The operators of row expressions and the symbols that messages show for them.
-/

namespace StreamQuery

/-- The binary operators. -/
inductive BinaryOp where
  | equal
  | notEqual
  | less
  | lessOrEqual
  | greater
  | greaterOrEqual
  | member
  | notMember
  | conjunction
  | disjunction
  | add
  | subtract
  | multiply
  | divide
  | floorDivide
  | modulus
  | exponent
  | like
  | notLike
  | bitAnd
  | bitOr
  | bitXor
  | shiftLeft
  | shiftRight
  | coalesce
  deriving DecidableEq, Repr

/-- The symbol of a binary operator. -/
def BinaryOp.symbol : BinaryOp → String
  | .equal => "=="
  | .notEqual => "!="
  | .less => "<"
  | .lessOrEqual => "<="
  | .greater => ">"
  | .greaterOrEqual => ">="
  | .member => "in"
  | .notMember => "not in"
  | .conjunction => "and"
  | .disjunction => "or"
  | .add => "+"
  | .subtract => "-"
  | .multiply => "*"
  | .divide => "/"
  | .floorDivide => "//"
  | .modulus => "%"
  | .exponent => "**"
  | .like => "like"
  | .notLike => "not like"
  | .bitAnd => "&"
  | .bitOr => "|"
  | .bitXor => "^"
  | .shiftLeft => "<<"
  | .shiftRight => ">>"
  | .coalesce => "??"

/-- All binary operators. -/
def BinaryOp.all : List BinaryOp :=
  [.equal, .notEqual, .less, .lessOrEqual, .greater, .greaterOrEqual, .member, .notMember,
    .conjunction, .disjunction, .add, .subtract, .multiply, .divide, .floorDivide, .modulus,
    .exponent, .like, .notLike, .bitAnd, .bitOr, .bitXor, .shiftLeft, .shiftRight, .coalesce]

/-- The operator with a symbol. -/
def BinaryOp.ofSymbol? (symbol : String) : Option BinaryOp :=
  BinaryOp.all.find? (·.symbol == symbol)

/-- The unary operators. -/
inductive UnaryOp where
  | not
  | negate
  | plus
  | bitNot
  deriving DecidableEq, Repr

end StreamQuery
