import StreamQuery.Evaluation.Scope
import StreamQuery.Expr.Basic

/-!
# Assignment

Overwriting the place in a row that an expression names: a column, or a path of constant keys into
a column. A key that an object lacks is created on the way, and stays if the assignment fails
further down.
-/

namespace StreamQuery.Assignment

/-- Where a path begins. -/
inductive Root where
  | column (index : Nat)
  | row
  deriving DecidableEq, Repr

/-- A key of a path: a string or a number. -/
def key? : Expr → Option Value
  | .literal (.str s) => some (.str s)
  | .literal (.int n) => some (.int n)
  | .literal (.float x) => some (.float x)
  | _ => none

/-- The root and the keys of an expression that names a place. -/
def path? : Expr → Option (Root × List Value)
  | .column index => some (.column index, [])
  | .variable "row" => some (.row, [])
  | .field base name => (path? base).map fun (root, keys) => (root, keys ++ [.str name])
  | .item base index => match key? index, path? base with
    | some key, some (root, keys) => some (root, keys ++ [key])
    | _, _ => none
  | _ => none

/-- The integer that a number key means in a list; any other number lies behind its end. -/
def listIndex (length : Nat) (key : Value) : Int :=
  match key with
  | .int n =>
    if InInt64 n.val then (if n.val < 0 then length + n.val else n.val) else length
  | _ => length

/-- The part of a value under a key, and how to put another part in its place. -/
def part (target key : Value) : Except Error (Value × (Value → Value)) :=
  match target with
  | .object entries => match key with
    | .str name =>
      .ok ((lookup? name entries).getD .null, fun inner => .object (insertEntry name inner entries))
    | _ => .error (.type (.notAssignable .dict))
  | .list items => match key with
    | .str _ => .error (.type (.notAssignable .list))
    | key =>
      let index := listIndex items.length key
      if 0 ≤ index ∧ index < items.length then
        .ok ((items[index.toNat]?).getD .null, fun inner => .list (items.set index.toNat inner))
      else .error (.eval (.listIndex index))
  | target => .error (.type (.notAssignable target.kind))

/-- A value with the place under the keys overwritten. On failure the value has the keys created
on the way. -/
def overwrite (new : Value) : List Value → Value → Option Error × Value
  | [], _ => (none, new)
  | key :: keys, target => match part target key with
    | .error error => (some error, target)
    | .ok (inner, put) =>
      let (error, inner) := overwrite new keys inner
      (error, put inner)

/-- The column and the keys in it of a path. The first key of a path from the row is the name of
its column, unless the row is the object of a single column. -/
def place (names : List String) (values : List Value) (root : Root) (keys : List Value) :
    Except Error (Nat × List Value) :=
  match root, values, keys with
  | .column index, _, keys => .ok (index, keys)
  | .row, [.object _], keys => .ok (0, keys)
  | .row, _, .str name :: keys => match names.findIdx? (· == name) with
    | some index => .ok (index, keys)
    | none => .error (.eval (.noColumnNamed name))
  | .row, _, _ => .error (.eval .notATarget)

/-- A row with the place that an expression names overwritten. On failure the row has the keys
created on the way. -/
def assign (target : Expr) (names : List String) (values : List Value) (new : Value) :
    Option Error × List Value :=
  match path? target with
  | none => (some (.eval .notATarget), values)
  | some (root, keys) => match place names values root keys with
    | .error error => (some error, values)
    | .ok (column, keys) => match values[column]? with
      | none => (some (.eval (.noColumn (column + 1))), values)
      | some value =>
        let (error, value) := overwrite new keys value
        (error, values.set column value)

end StreamQuery.Assignment
