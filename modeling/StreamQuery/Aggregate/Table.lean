import StreamQuery.Aggregate.Accumulator
import Std.Data.HashMap

/-!
# Accumulators of all groups

Every aggregate call of a row takes the next position, and its accumulator stands under the group
of the row and that position. Positions begin anew when a row is started.
-/

namespace StreamQuery

/-- The accumulators of all groups, with the group and the position of the next call. -/
structure Aggregates where
  group : String := ""
  position : Nat := 0
  slots : Std.HashMap String (Array Accumulator) := {}
  deriving Inhabited

namespace Aggregates

/-- Begins a row of a group. -/
def startRow (key : String) (table : Aggregates) : Aggregates :=
  { table with group := key, position := 0 }

/-- The number of groups that have accumulators. -/
def groupCount (table : Aggregates) : Nat :=
  table.slots.size

/-- The accumulators of the present group. -/
def present (table : Aggregates) : Array Accumulator :=
  table.slots.getD table.group #[]

/-- The accumulator of the next call. -/
def next (table : Aggregates) : Accumulator :=
  (table.present[table.position]?).getD .empty

/-- Gives the next call its accumulator and goes on to the call after it. -/
def store (accumulator : Accumulator) (table : Aggregates) : Aggregates :=
  let present := table.present
  let padded := present ++ Array.replicate (table.position + 1 - present.size) .empty
  { table with
    position := table.position + 1
    slots := table.slots.insert table.group (padded.setIfInBounds table.position accumulator) }

/-- Calls an aggregate function. A call with wrong arguments takes no position; one that fails
later keeps its accumulator. -/
def call (function : Aggregate) (arguments : List Value) (table : Aggregates) :
    Except Error Value × Aggregates :=
  match function.step arguments with
  | .error error => (.error error, table)
  | .ok step => match step table.next with
    | .ok (value, accumulator) => (.ok value, table.store accumulator)
    | .error error => (.error error, table.store table.next)

/-- Calls the aggregate function with a name. -/
def callNamed (name : String) (arguments : List Value) (table : Aggregates) :
    Except Error Value × Aggregates :=
  match Aggregate.ofName? name with
  | some function => table.call function arguments
  | none => (.error (.eval (.undefinedName (Unicode.toLower name))), table)

end Aggregates

end StreamQuery
