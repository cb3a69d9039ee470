/-!
# Clauses

The clauses of a query in their mandatory order, and locations in them.
-/

namespace StreamQuery

/-- The clauses of a query, in the order in which they have to appear. -/
inductive Clause where
  | imports
  | select
  | source
  | explode
  | condition
  | groupBy
  | orderBy
  | limit
  | offset
  | target
  deriving DecidableEq, Repr

namespace Clause

/-- All clauses in order. -/
def all : List Clause :=
  [.imports, .select, .source, .explode, .condition, .groupBy, .orderBy, .limit, .offset, .target]

/-- The place of a clause in the order. -/
def rank : Clause → Nat
  | .imports => 0
  | .select => 1
  | .source => 2
  | .explode => 3
  | .condition => 4
  | .groupBy => 5
  | .orderBy => 6
  | .limit => 7
  | .offset => 8
  | .target => 9

/-- The keyword of a clause. -/
def keyword : Clause → String
  | .imports => "IMPORT"
  | .select => "SELECT"
  | .source => "FROM"
  | .explode => "EXPLODE"
  | .condition => "WHERE"
  | .groupBy => "GROUP BY"
  | .orderBy => "ORDER BY"
  | .limit => "LIMIT"
  | .offset => "OFFSET"
  | .target => "TO"

/-- The words of the keyword in lower case. -/
def words : Clause → List String
  | .imports => ["import"]
  | .select => ["select"]
  | .source => ["from"]
  | .explode => ["explode"]
  | .condition => ["where"]
  | .groupBy => ["group", "by"]
  | .orderBy => ["order", "by"]
  | .limit => ["limit"]
  | .offset => ["offset"]
  | .target => ["to"]

end Clause

/-- A place in a query: a clause, or one of the expressions of a clause, counted from one. -/
structure Location where
  clause : Clause
  position : Option Nat
  deriving DecidableEq, Repr

/-- A location as messages show it. -/
def Location.describe (location : Location) : String :=
  match location.position with
  | some position => location.clause.keyword ++ " expression #" ++ toString position
  | none => location.clause.keyword ++ " clause"

end StreamQuery
