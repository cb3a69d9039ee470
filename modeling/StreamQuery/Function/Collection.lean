import StreamQuery.Function.Arguments
import StreamQuery.Value.Arithmetic
import Std.Data.HashSet

/-!
# Collection functions

Functions on lists and objects, and on strings as sequences of characters.
-/

namespace StreamQuery

/-- The functions on collections. -/
inductive CollectionFunction where
  | len
  | range
  | list
  | sorted
  | reversed
  | keys
  | values
  | items
  | get
  | count
  | contains
  | unique
  | zip
  | enumerate
  | flatten
  | index
  deriving DecidableEq, Repr

namespace CollectionFunction

/-- All functions on collections. -/
def all : List CollectionFunction :=
  [.len, .range, .list, .sorted, .reversed, .keys, .values, .items, .get, .count, .contains,
    .unique, .zip, .enumerate, .flatten, .index]

/-- The name of a function. -/
def name : CollectionFunction → String
  | .len => "len"
  | .range => "range"
  | .list => "list"
  | .sorted => "sorted"
  | .reversed => "reversed"
  | .keys => "keys"
  | .values => "values"
  | .items => "items"
  | .get => "get"
  | .count => "count"
  | .contains => "contains"
  | .unique => "unique"
  | .zip => "zip"
  | .enumerate => "enumerate"
  | .flatten => "flatten"
  | .index => "index"

/-- The number of parts of a value. -/
def length (value : Value) : Except Error Value :=
  match value with
  | .str s => .ok (.ofNat s.length)
  | .list parts => .ok (.ofNat parts.length)
  | .object entries => .ok (.ofNat entries.length)
  | value => .error (.type (.noLength value.kind))

/-- The list of an arithmetic progression that stops before a bound, which must not be too long. The
terms are computed in words of 128 bits and cut off to 64. -/
def rangeListOn {m : Type → Type} [Monad m] (machine : Machine m) (start stop step : Int) :
    m (Except Error Value) := do
  if step = 0 then return .error (.eval .rangeStep)
  else
    let span ← machine.word 128 (if step > 0 then stop - start else start - stop)
    let count ←
      if span ≤ 0 then pure 0
      else do
        let last ← machine.word 128 (span - 1)
        let size ← machine.word 128 step.natAbs
        machine.word 128 ((← machine.quotient 128 last size) + 1)
    if count > Value.sequenceLimit then return .error (.eval (.rangeTooLarge count))
    else
      let terms ← (List.range count.toNat).mapM fun (i : Nat) => do
        let term ← machine.word 128 (start + (← machine.word 128 (i * step)))
        return Value.ofInt (Number.lowWord 64 term)
      return .ok (.list terms)

/-- The list of an arithmetic progression, where what is not checked wraps around. -/
def rangeList (start stop step : Int) : Except Error Value :=
  Id.run (rangeListOn .wrapping start stop step)

/-- A range from its one to three arguments. -/
def applyRange (arguments : List Value) : Except Error Value :=
  let integer := Arguments.integer "range"
  match arguments with
  | [stop] => do rangeList 0 (← integer stop) 1
  | [start, stop] => do
    let start ← integer start
    rangeList start (← integer stop) 1
  | [start, stop, step] => do
    let start ← integer start
    let stop ← integer stop
    rangeList start stop (← integer step)
  | arguments => .error (Arguments.miscounted "range" (.between 1 3) arguments)

/-- Values in ascending order; equal ones keep their order. -/
def ascending (items : List Value) : List Value :=
  items.mergeSort fun a b => a.order b != .gt

/-- How often a part occurs in a string, or an item in a list. -/
def occurrences (base part : Value) : Except Error Value :=
  match base with
  | .str text => match part with
    | .str part => .ok (.ofNat (Text.occurrences part.toList text.toList))
    | _ => .ok (.ofNat 0)
  | base => do
    let items ← Arguments.list "count" base
    return .ofNat (items.countP fun item => item.equal part)

/-- The first item of every key. -/
def distinct (seen : Std.HashSet String) : List Value → List Value
  | [] => []
  | item :: rest =>
    let key := tupleKey [item]
    if seen.contains key then distinct seen rest else item :: distinct (seen.insert key) rest

/-- The rows of lists side by side, as long as the shortest one. -/
def zipped (lists : List (List Value)) : List Value :=
  let columns := lists.map List.toArray
  let length := ((columns.map Array.size).min?).getD 0
  (List.range length).map fun i => .list (columns.map fun items => (items[i]?).getD .null)

/-- Items numbered from a start. -/
def numbered (start : Int) : List Value → List Value
  | [] => []
  | item :: rest => .list [.ofInt start, item] :: numbered (start + 1) rest

/-- The items of an item that is a list, or the item. -/
def flattened : Value → List Value
  | .list parts => parts
  | item => [item]

/-- The entries of an object. -/
def objectEntries (function : String) (value : Value) : Except Error (List (String × Value)) :=
  match value with
  | .object entries => .ok entries
  | value => .error (Arguments.unexpected function .dict value)

/-- Applies a function to its arguments. -/
def apply (function : CollectionFunction) : List Value → Except Error Value :=
  let name := function.name
  let list := Arguments.list name
  let iterable := Arguments.iterable name
  match function with
  | .len => Arguments.one name length
  | .range => applyRange
  | .list => Arguments.one name fun x => return .list (← iterable x)
  | .sorted => Arguments.oneOrTwo name fun x descending => do
    let items := ascending (← iterable x)
    return .list (if (descending.map Value.truthy).getD false then items.reverse else items)
  | .reversed => Arguments.one name fun x =>
    match x with
    | .str s => return .str (String.ofList s.toList.reverse)
    | x => return .list (← iterable x).reverse
  | .keys => Arguments.one name fun x =>
    return .list ((← objectEntries name x).map fun entry => .str entry.1)
  | .values => Arguments.one name fun x =>
    return .list ((← objectEntries name x).map fun entry => entry.2)
  | .items => Arguments.one name fun x =>
    return .list ((← objectEntries name x).map fun entry => .list [.str entry.1, entry.2])
  | .get => Arguments.twoOrThree name fun base key otherwise =>
    return match ← base.item key with
      | .null => otherwise.getD .null
      | found => found
  | .count => Arguments.two name occurrences
  | .contains => Arguments.two name fun base part => return .bool (← base.contains part)
  | .unique => Arguments.one name fun x => return .list (distinct {} (← list x))
  | .zip => fun arguments => return .list (zipped (← arguments.mapM list))
  | .enumerate => Arguments.oneOrTwo name fun x start => do
    let start ← match start with
      | some start => Arguments.integer name start
      | none => pure 0
    return .list (numbered start (← iterable x))
  | .flatten => Arguments.one name fun x => return .list ((← list x).flatMap flattened)
  | .index => Arguments.two name fun x item =>
    return (((← list x).findIdx? fun other => other.equal item).map Value.ofNat).getD .null

end CollectionFunction

end StreamQuery
