import StreamQuery.Number.Binary

/-!
# Values

The data a query works on: JSON-shaped values with integers and floats kept apart. An integer lies
in the signed or the unsigned 64-bit range and a float is finite, by construction. An object is
the list of its entries in insertion order.
-/

namespace StreamQuery

/-- An integer a value can hold: signed or unsigned 64 bits. -/
structure BoundedInt where
  val : Int
  lower : -0x8000000000000000 ≤ val
  upper : val < 0x10000000000000000
  deriving DecidableEq

/-- A float that is neither infinite nor undefined. -/
structure FiniteFloat where
  val : Float
  finite : val.isFinite = true

/-- A value. -/
inductive Value where
  | null
  | bool (b : Bool)
  | int (n : BoundedInt)
  | float (x : FiniteFloat)
  | str (s : String)
  | list (items : List Value)
  | object (entries : List (String × Value))

instance : Inhabited Value := ⟨.null⟩

/-- Whether an integer lies in the signed 64-bit range. -/
def InInt64 (n : Int) : Prop := -0x8000000000000000 ≤ n ∧ n < 0x8000000000000000

instance (n : Int) : Decidable (InInt64 n) := by unfold InInt64; infer_instance

/-- The kinds of values, as error messages name them. -/
inductive Kind where
  | null
  | bool
  | int
  | float
  | str
  | list
  | dict
  deriving DecidableEq, Repr

/-- The name of a kind. -/
def Kind.name : Kind → String
  | .null => "NULL"
  | .bool => "bool"
  | .int => "int"
  | .float => "float"
  | .str => "str"
  | .list => "list"
  | .dict => "dict"

namespace Value

/-- The kind of a value. -/
def kind : Value → Kind
  | .null => .null
  | .bool _ => .bool
  | .int _ => .int
  | .float _ => .float
  | .str _ => .str
  | .list _ => .list
  | .object _ => .dict

/-- The integer value of a number in range; a number out of range has no value and gives null. -/
def ofInt (n : Int) : Value :=
  if h : -0x8000000000000000 ≤ n ∧ n < 0x10000000000000000 then .int ⟨n, h.1, h.2⟩ else .null

/-- The value of a count. -/
def ofNat (n : Nat) : Value := ofInt n

/-- The value of a float; what is not finite gives null. -/
def ofFloat (x : Float) : Value :=
  if h : x.isFinite = true then .float ⟨x, h⟩ else .null

/-- An exact result as long as it fits signed 64 bits, else the float computed instead. -/
def ofExact (exact : Int) (otherwise : Float) : Value :=
  if InInt64 exact then ofInt exact else ofFloat otherwise

/-- Whether a value is null. -/
def isNull : Value → Bool
  | .null => true
  | _ => false

/-- The signed 64-bit view of a value; a boolean counts as zero or one. -/
def asInt64? : Value → Option Int
  | .int n => if InInt64 n.val then some n.val else none
  | .bool b => some (if b then 1 else 0)
  | _ => none

/-- The float view of a value; a boolean counts as zero or one. -/
def asFloat? : Value → Option Float
  | .int n => some (Number.floatOfInt n.val)
  | .float x => some x.val
  | .bool b => some (if b then 1.0 else 0.0)
  | _ => none

/-- The text of a text value. -/
def asString? : Value → Option String
  | .str s => some s
  | _ => none

/-- Truth of a value: null, zero and what is empty are false. -/
def truthy : Value → Bool
  | .null => false
  | .bool b => b
  | .int n => n.val != 0
  | .float x => x.val != 0.0
  | .str s => !s.isEmpty
  | .list items => !items.isEmpty
  | .object entries => !entries.isEmpty

end Value

/-- The value under a key. -/
def lookup? {α : Type} (key : String) : List (String × α) → Option α
  | [] => none
  | (k, v) :: rest => if k == key then some v else lookup? key rest

/-- An entry added at the end, or put in the place of the entry with its key. -/
def insertEntry {α : Type} (key : String) (value : α) : List (String × α) → List (String × α)
  | [] => [(key, value)]
  | (k, v) :: rest =>
    if k == key then (key, value) :: rest else (k, v) :: insertEntry key value rest

/-- Entries inserted one after the other. -/
def insertEntries {α : Type} (entries added : List (String × α)) : List (String × α) :=
  added.foldl (fun result entry => insertEntry entry.1 entry.2 result) entries

end StreamQuery
