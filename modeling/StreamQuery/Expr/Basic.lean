import StreamQuery.Expr.Operator
import StreamQuery.Value.Basic

/-!
# Row expressions

The syntax trees of expressions, their sub-expressions, and the ones among them that are only
evaluated for some rows.
-/

namespace StreamQuery

/-- An expression over a row. -/
inductive Expr where
  | literal (value : Value)
  | variable (name : String)
  | column (index : Nat)
  | field (base : Expr) (name : String)
  | item (base index : Expr)
  | slice (base : Expr) (start stop : Option Expr)
  | binary (left : Expr) (op : BinaryOp) (right : Expr)
  | unary (op : UnaryOp) (operand : Expr)
  | isNull (operand : Expr) (negated : Bool)
  | object (entries : List (Expr × Expr))
  | list (items : List Expr)
  | call (name : String) (arguments : List Expr)
  | method (receiver : Expr) (name : String) (arguments : List Expr)
  | ternary (condition whenTrue whenFalse : Expr)
  | case (operand : Option Expr) (branches : List (Expr × Expr)) (otherwise : Option Expr)

instance : Inhabited Expr := ⟨.literal .null⟩

namespace Expr

mutual

/-- An expression and all its sub-expressions, each before its own parts. -/
def subexpressions : Expr → List Expr
  | .literal value => [.literal value]
  | .variable name => [.variable name]
  | .column index => [.column index]
  | .field base name => .field base name :: base.subexpressions
  | .item base index => .item base index :: (base.subexpressions ++ index.subexpressions)
  | .slice base start stop =>
    .slice base start stop ::
      (base.subexpressions ++ optionSubexpressions start ++ optionSubexpressions stop)
  | .binary left op right =>
    .binary left op right :: (left.subexpressions ++ right.subexpressions)
  | .unary op operand => .unary op operand :: operand.subexpressions
  | .isNull operand negated => .isNull operand negated :: operand.subexpressions
  | .object entries => .object entries :: pairSubexpressions entries
  | .list items => .list items :: listSubexpressions items
  | .call name arguments => .call name arguments :: listSubexpressions arguments
  | .method receiver name arguments =>
    .method receiver name arguments :: (receiver.subexpressions ++ listSubexpressions arguments)
  | .ternary condition whenTrue whenFalse =>
    .ternary condition whenTrue whenFalse ::
      (condition.subexpressions ++ whenTrue.subexpressions ++ whenFalse.subexpressions)
  | .case operand branches otherwise =>
    .case operand branches otherwise ::
      (optionSubexpressions operand ++ pairSubexpressions branches ++
        optionSubexpressions otherwise)
termination_by structural expr => expr

/-- The sub-expressions of an expression that may be absent. -/
def optionSubexpressions : Option Expr → List Expr
  | none => []
  | some expr => expr.subexpressions
termination_by structural expr => expr

/-- The sub-expressions of all expressions of a list. -/
def listSubexpressions : List Expr → List Expr
  | [] => []
  | expr :: rest => expr.subexpressions ++ listSubexpressions rest
termination_by structural exprs => exprs

/-- The sub-expressions of all pairs of a list. -/
def pairSubexpressions : List (Expr × Expr) → List Expr
  | [] => []
  | (first, second) :: rest =>
    first.subexpressions ++ second.subexpressions ++ pairSubexpressions rest
termination_by structural pairs => pairs

end

/-- The conditions and results of later branches: of a first branch only the result is optional. -/
def laterBranches : List (Expr × Expr) → List Expr
  | [] => []
  | (condition, result) :: rest => condition :: result :: laterBranches rest

/-- The direct parts of an expression that are evaluated for some rows only. -/
def ownBranches : Expr → List Expr
  | .ternary _ whenTrue whenFalse => [whenTrue, whenFalse]
  | .case _ branches otherwise =>
    (laterBranches branches).drop 1 ++ otherwise.toList
  | .binary _ .conjunction right => [right]
  | .binary _ .disjunction right => [right]
  | .binary _ .coalesce right => [right]
  | _ => []

/-- All parts at any depth that are evaluated for some rows only. -/
def conditionalBranches (expr : Expr) : List Expr :=
  expr.subexpressions.flatMap ownBranches

/-- The function that an expression itself calls. -/
def ownCall? : Expr → Option String
  | .call name _ => some name
  | .method _ name _ => some name
  | _ => none

/-- The names of all functions called at any depth. -/
def calledFunctions (expr : Expr) : List String :=
  expr.subexpressions.filterMap ownCall?

end Expr

end StreamQuery
