import StreamQuery.Unicode.Case

/-!
# Aggregate functions

The functions that combine the values of a group's rows, with their names and the numbers of
arguments they take. Names are looked up in any case of their letters.
-/

namespace StreamQuery

/-- The aggregate functions. -/
inductive Aggregate where
  | sum
  | product
  | count
  | average
  | min
  | max
  | list
  | string
  | set
  | dict
  | first
  | last
  | lag
  | countDistinct
  | any
  | every
  deriving DecidableEq, Repr

namespace Aggregate

/-- All aggregate functions. -/
def all : List Aggregate :=
  [.sum, .product, .count, .average, .min, .max, .list, .string, .set, .dict, .first, .last, .lag,
    .countDistinct, .any, .every]

/-- The name of an aggregate function. -/
def name : Aggregate → String
  | .sum => "sum_agg"
  | .product => "prod_agg"
  | .count => "count_agg"
  | .average => "avg_agg"
  | .min => "min_agg"
  | .max => "max_agg"
  | .list => "list_agg"
  | .string => "string_agg"
  | .set => "set_agg"
  | .dict => "dict_agg"
  | .first => "first_agg"
  | .last => "last_agg"
  | .lag => "lag_agg"
  | .countDistinct => "count_distinct_agg"
  | .any => "any_agg"
  | .every => "every_agg"

/-- The aggregate function with a name. -/
def ofName? (name : String) : Option Aggregate :=
  let lowered := Unicode.toLower name
  all.find? (·.name == lowered)

/-- Whether a name is that of an aggregate function. -/
def isName (name : String) : Bool :=
  (ofName? name).isSome

/-- The least and the greatest number of arguments. -/
def arity : Aggregate → Nat × Nat
  | .list => (1, 2)
  | .string => (2, 3)
  | .set => (1, 2)
  | .dict => (2, 2)
  | .first => (1, 2)
  | .last => (1, 2)
  | .lag => (1, 3)
  | _ => (1, 1)

end Aggregate

end StreamQuery
