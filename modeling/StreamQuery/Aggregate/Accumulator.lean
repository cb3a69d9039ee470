import StreamQuery.Aggregate.Basic
import StreamQuery.Value.Arithmetic
import Std.Data.HashSet

/-!
# Accumulators

What an aggregate call remembers from row to row. A call looks at the accumulator, gives the value
for the rows so far and leaves the next accumulator; one of another shape counts as empty.
-/

namespace StreamQuery

/-- The memory of one aggregate call. Lists hold the latest item first. -/
inductive Accumulator where
  | empty
  | running (value : Value)
  | chosen (value : Value)
  | average (total : Value) (count : Nat)
  | items (latest : List Value)
  | strings (latest : List String)
  | distinct (seen : Std.HashSet String) (latest : List Value)
  | entries (collected : List (String × Value))
  | history (latest : List Value)

instance : Inhabited Accumulator := ⟨.empty⟩

namespace Accumulator

/-- The value for the rows so far, and the accumulator after them. -/
abbrev Step := Accumulator → Except Error (Value × Accumulator)

/-- The running value, null at first. -/
def current : Accumulator → Value
  | .running value => value
  | _ => .null

/-- A fold to which null is transparent: it leaves the running value as it is, and the first
other value starts it. -/
def fold (op : Value → Value → Except Error Value) (x : Value) : Step := fun accumulator =>
  if x.isNull then .ok (accumulator.current, accumulator)
  else do
    let next ← if accumulator.current.isNull then pure x else op accumulator.current x
    return (next, .running next)

/-- The number of rows counted so far. -/
def counted : Accumulator → Int
  | .running (.int n) => if InInt64 n.val then n.val else 0
  | _ => 0

/-- Counts the values that are not null. -/
def count (x : Value) : Step := fun accumulator =>
  let next := Value.ofInt (accumulator.counted + if x.isNull then 0 else 1)
  .ok (next, .running next)

/-- The total and the number of the values averaged so far. -/
def averaged : Accumulator → Value × Nat
  | .average total count => (total, count)
  | _ => (.null, 0)

/-- The mean of the values that are not null. -/
def mean (x : Value) : Step := fun accumulator => do
  let (total, count) := accumulator.averaged
  let (total, count) ←
    if x.isNull then pure (total, count)
    else do
      let total ← if total.isNull then pure x else Value.applyBinary .add total x
      pure (total, count + 1)
  let quotient ←
    if count = 0 then pure Value.null else Value.applyBinary .divide total (.ofNat count)
  return (quotient, .average total count)

/-- The better of two values; the earlier one unless the later one surpasses it. -/
def better (surpasses : Ordering) (earlier later : Value) : Except Error Value :=
  .ok (if later.order earlier == surpasses then later else earlier)

/-- A truth value combined with the one so far. -/
def combine (op : Bool → Bool → Bool) (earlier later : Value) : Except Error Value :=
  .ok (.bool (op earlier.truthy later.truthy))

/-- The truth of a value; null has none. -/
def truth (x : Value) : Value :=
  if x.isNull then .null else .bool x.truthy

/-- Collects values into a list. -/
def collect (keep : Bool) (x : Value) : Step := fun accumulator =>
  let latest := match accumulator with
    | .items latest => latest
    | _ => []
  let latest := if keep then x :: latest else latest
  .ok (.list latest.reverse, .items latest)

/-- Collects texts and joins them. -/
def join (keep : Bool) (separator : String) (x : Value) : Step := fun accumulator =>
  let latest := match accumulator with
    | .strings latest => latest
    | _ => []
  let latest := if keep then x.display :: latest else latest
  .ok (.str (separator.intercalate latest.reverse), .strings latest)

/-- The keys seen and the values first seen with them. -/
def distinctSoFar : Accumulator → Std.HashSet String × List Value
  | .distinct seen latest => (seen, latest)
  | _ => ({}, [])

/-- The values first seen, with one more. -/
def observe (keep : Bool) (x : Value) (accumulator : Accumulator) :
    Std.HashSet String × List Value :=
  let (seen, latest) := accumulator.distinctSoFar
  let key := tupleKey [x]
  if keep && !seen.contains key then (seen.insert key, x :: latest) else (seen, latest)

/-- Collects every value once. -/
def collectDistinct (keep : Bool) (x : Value) : Step := fun accumulator =>
  let (seen, latest) := accumulator.observe keep x
  .ok (.list latest.reverse, .distinct seen latest)

/-- Counts every value once. -/
def countDistinct (x : Value) : Step := fun accumulator =>
  let (seen, latest) := accumulator.observe (!x.isNull) x
  .ok (.ofNat latest.length, .distinct seen latest)

/-- Collects entries into an object; a null key is passed over. -/
def collectEntry (key value : Value) : Step := fun accumulator =>
  let collected := match accumulator with
    | .entries collected => collected
    | _ => []
  let collected := if key.isNull then collected else insertEntry key.display value collected
  .ok (.object collected, .entries collected)

/-- The value chosen so far. -/
def choice : Accumulator → Option Value
  | .chosen value => some value
  | _ => none

/-- Chooses the first value that counts. -/
def first (counts : Bool) (x : Value) : Step := fun accumulator =>
  let next := if counts && accumulator.choice.isNone then .chosen x else accumulator
  .ok (next.choice.getD .null, next)

/-- Chooses the last value that counts. -/
def last (counts : Bool) (x : Value) : Step := fun accumulator =>
  let next := if counts then .chosen x else accumulator
  .ok (next.choice.getD .null, next)

/-- The value a number of rows ago, or a default. -/
def lag (offset : Nat) (otherwise x : Value) : Step := fun accumulator =>
  let latest := match accumulator with
    | .history latest => latest
    | _ => []
  let latest := (x :: latest).take (offset + 1)
  .ok ((latest[offset]?).getD otherwise, .history latest)

end Accumulator

namespace Aggregate

/-- The number of rows that `lag_agg` goes back: one, or a natural number given. -/
def lagOffset : Option Value → Except Error Nat
  | none => .ok 1
  | some (.int n) =>
    if 0 ≤ n.val then .ok n.val.toNat else .error (.type (.lagOffset (Value.int n).toJson))
  | some other => .error (.type (.lagOffset other.toJson))

/-- What an aggregate function does with its accumulator when it is called with arguments of the
right number. A flag tells whether null counts. -/
def stepOf (function : Aggregate) (arguments : List Value) : Except Error Accumulator.Step :=
  let x := arguments.headD .null
  let second := arguments[1]?
  let third := arguments[2]?
  let counts (flag : Option Value) (otherwise : Bool) : Bool :=
    (flag.map Value.truthy).getD otherwise || !x.isNull
  match function with
  | .sum => .ok (Accumulator.fold (Value.applyBinary .add) x)
  | .product => .ok (Accumulator.fold (Value.applyBinary .multiply) x)
  | .count => .ok (Accumulator.count x)
  | .average => .ok (Accumulator.mean x)
  | .min => .ok (Accumulator.fold (Accumulator.better .lt) x)
  | .max => .ok (Accumulator.fold (Accumulator.better .gt) x)
  | .any => .ok (Accumulator.fold (Accumulator.combine or) (Accumulator.truth x))
  | .every => .ok (Accumulator.fold (Accumulator.combine and) (Accumulator.truth x))
  | .list => .ok (Accumulator.collect (counts second true) x)
  | .string => .ok (Accumulator.join (counts third false) (second.getD .null).display x)
  | .set => .ok (Accumulator.collectDistinct (counts second true) x)
  | .countDistinct => .ok (Accumulator.countDistinct x)
  | .dict => .ok (Accumulator.collectEntry x (second.getD .null))
  | .first => .ok (Accumulator.first (counts second true) x)
  | .last => .ok (Accumulator.last (counts second true) x)
  | .lag => return Accumulator.lag (← lagOffset second) (third.getD .null) x

/-- What an aggregate function does with its accumulator, if the number of its arguments is
right. -/
def step (function : Aggregate) (arguments : List Value) : Except Error Accumulator.Step :=
  let (least, most) := function.arity
  if least ≤ arguments.length && arguments.length ≤ most then function.stepOf arguments
  else .error (.eval (.aggregateArguments function.name least most arguments.length))

end Aggregate

end StreamQuery
