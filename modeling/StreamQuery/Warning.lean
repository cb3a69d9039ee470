import StreamQuery.Json.Printer
import StreamQuery.Unicode.Case

/-!
# Warnings

What is worth reporting without being an error, and the choice between reporting warnings and
failing at the first one.
-/

namespace StreamQuery

/-- A warning. -/
inductive Warning where
  | unconvertible (value : Value) (target : Kind)
  | conditionalAggregate (name : String)
  | uselessOrderBy

/-- The wording of a warning. -/
def Warning.message : Warning → String
  | .unconvertible value target =>
    "could not convert " ++ value.toJson ++ " to " ++ target.name ++ ", returning NULL"
  | .conditionalAggregate name =>
    "aggregate function " ++ name ++ " is called inside a conditional expression; " ++
      "results may be inconsistent across rows"
  | .uselessOrderBy => "ORDER BY is useless since output will have a single result"

/-- What becomes of warnings. -/
inductive WarningPolicy where
  | report
  | fail
  deriving DecidableEq, Repr

/-- The policy with a name, in any case of its letters. -/
def WarningPolicy.ofName? (name : String) : Option WarningPolicy :=
  match Unicode.toLower name with
  | "default" => some .report
  | "error" => some .fail
  | _ => none

end StreamQuery
