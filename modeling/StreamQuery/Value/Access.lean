import StreamQuery.Json.Printer
import StreamQuery.Number.Machine
import StreamQuery.Text.Search
import StreamQuery.Value.Order

/-!
# Parts of values

Membership, items and slices. A missing key and an index out of range give null; indexes count
from the end when negative.
-/

namespace StreamQuery.Value

/-- Whether a value is an item of a list, a key of an object or a part of a string. -/
def contains (container item : Value) : Except Error Bool :=
  match container with
  | .null => .ok false
  | .list items => .ok (items.any (equal item))
  | .object entries => match item with
    | .str key => .ok (lookup? key entries).isSome
    | _ => .ok false
  | .str text => match item with
    | .str part => .ok (Text.containsPart part.toList text.toList)
    | .null => .ok false
    | other => .error (.type (.partOfText other.kind))
  | other => .error (.type (.notSearchable other.kind))

/-! ### Positions

Positions are computed in words, and the parts at them are fetched without another look at the
length. -/

section Positions

variable {m : Type → Type} [Monad m] {α : Type}

/-- An index counted from the end of a sequence if it is negative. -/
def countedOn (machine : Machine m) (length index : Int) : m Int :=
  if index < 0 then machine.word 64 (length + index) else pure index

/-- The position an index means in a sequence, if it is one of its positions. -/
def positionOn? (machine : Machine m) (index : Int) (length : Nat) : m (Option Nat) := do
  let length ← machine.word 64 length
  let position ← countedOn machine length index
  return if 0 ≤ position ∧ position < length then some position.toNat else none

/-- The element at an index, if that means a position. -/
def elementOn? [Inhabited α] (machine : Machine m) (index : Int) (elements : List α) :
    m (Option α) := do
  match ← positionOn? machine index elements.length with
  | some position => return some (← machine.present elements[position]?)
  | none => return none

/-- A bound moved into a sequence of a length. -/
def clampOn (machine : Machine m) (length bound : Int) : m Nat := do
  let position ← countedOn machine length bound
  return (max 0 (min position length)).toNat

/-- The positions at which a slice begins and before which it ends. -/
def boundsOn (machine : Machine m) (start stop : Option Int) (length : Nat) : m (Nat × Nat) := do
  let whole ← machine.word 64 length
  let first ← start.elim (pure 0) (clampOn machine whole)
  let last ← stop.elim (pure length) (clampOn machine whole)
  return (first, max last first)

/-- The elements from one position on and before another, if these are positions in order. -/
def stretch? (first last : Nat) (elements : List α) : Option (List α) :=
  if first ≤ last ∧ last ≤ elements.length then some (elements.extract first last) else none

/-- The elements between two bounds. -/
def betweenOn (machine : Machine m) (start stop : Option Int) (elements : List α) :
    m (List α) := do
  let (first, last) ← boundsOn machine start stop elements.length
  machine.present (stretch? first last elements)

end Positions

/-! ### Items and slices -/

section Subscripts

variable {m : Type → Type} [Monad m]

/-- The item under a key or at an index. -/
def itemOn (machine : Machine m) (base key : Value) : m (Except Error Value) :=
  match base, key with
  | .null, _ => return .ok .null
  | _, .null => return .ok .null
  | .object entries, key => return .ok ((lookup? key.display entries).getD .null)
  | .list items, key => match key.asInt64? with
    | some index => return .ok ((← elementOn? machine index items).getD .null)
    | none => return .error (.type (.indexKind .list key.kind))
  | .str text, key => match key.asInt64? with
    | some index =>
      return .ok ((← elementOn? machine index text.toList).elim .null fun c =>
        .str (String.singleton c))
    | none => return .error (.type (.indexKind .str key.kind))
  | base, _ => return .error (.type (.notSubscriptable base.kind))

/-- The item under a key or at an index, whatever the length of a sequence. -/
def item (base key : Value) : Except Error Value :=
  Id.run (itemOn .unbounded base key)

/-- The bound of a slice; null means none. -/
def bound (value : Value) : Except Error (Option Int) :=
  match value with
  | .null => .ok none
  | other => match other.asInt64? with
    | some n => .ok (some n)
    | none => .error (.type (.sliceKind other.kind))

/-- The part of a list or a string between two bounds. -/
def sliceOn (machine : Machine m) (base : Value) (start stop : Option Int) :
    m (Except Error Value) :=
  match base with
  | .null => return .ok .null
  | .list items => return .ok (.list (← betweenOn machine start stop items))
  | .str text => return .ok (.str (String.ofList (← betweenOn machine start stop text.toList)))
  | other => return .error (.type (.notSubscriptable other.kind))

/-- The slice of a list or a string between two bounds, whatever the length of the sequence. -/
def slice (base start stop : Value) : Except Error Value := do
  let start ← bound start
  let stop ← bound stop
  Id.run (sliceOn .unbounded base start stop)

end Subscripts

end StreamQuery.Value
