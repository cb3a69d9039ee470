import StreamQuery.Number.Notation
import StreamQuery.Value.Basic

/-!
# JSON texts

The compact JSON text of a value, the indented one, and the display text in which strings stand
for themselves.
-/

namespace StreamQuery.Json

/-- A digit of a hexadecimal number in lower case. -/
def hexDigit (n : Nat) : Char :=
  if n < 10 then Char.ofNat ('0'.toNat + n) else Char.ofNat ('a'.toNat + (n - 10))

/-- A character inside a JSON string. -/
def stringChar (c : Char) : List Char :=
  if c == '"' then ['\\', '"']
  else if c == '\\' then ['\\', '\\']
  else if c == '\n' then ['\\', 'n']
  else if c == '\r' then ['\\', 'r']
  else if c == '\t' then ['\\', 't']
  else if c.toNat == 8 then ['\\', 'b']
  else if c.toNat == 12 then ['\\', 'f']
  else if c.toNat < 32 then
    ['\\', 'u', '0', '0', hexDigit (c.toNat / 16), hexDigit (c.toNat % 16)]
  else [c]

/-- A JSON string. -/
def stringText (text : List Char) : List Char :=
  '"' :: text.flatMap stringChar ++ ['"']

/-- A JSON integer. -/
def intText (n : Int) : List Char :=
  if n < 0 then '-' :: Number.digitsOf n.natAbs else Number.digitsOf n.natAbs

mutual

/-- The compact text of a value. -/
def text : Value → List Char
  | .null => ['n', 'u', 'l', 'l']
  | .bool true => ['t', 'r', 'u', 'e']
  | .bool false => ['f', 'a', 'l', 's', 'e']
  | .int n => intText n.val
  | .float x => Number.jsonNotation.writeFinite x.val
  | .str s => stringText s.toList
  | .list items => '[' :: itemsText items ++ [']']
  | .object entries => '\x7b' :: entriesText entries ++ ['\x7d']
termination_by structural value => value

/-- The texts of the items of a list, separated by commas. -/
def itemsText : List Value → List Char
  | [] => []
  | item :: rest => text item ++ itemsTail rest
termination_by structural items => items

/-- The items of a list after its first one, each after a comma. -/
def itemsTail : List Value → List Char
  | [] => []
  | item :: rest => ',' :: text item ++ itemsTail rest
termination_by structural items => items

/-- The texts of the entries of an object, separated by commas. -/
def entriesText : List (String × Value) → List Char
  | [] => []
  | (key, value) :: rest => stringText key.toList ++ ':' :: text value ++ entriesTail rest
termination_by structural entries => entries

/-- The entries of an object after its first one, each after a comma. -/
def entriesTail : List (String × Value) → List Char
  | [] => []
  | (key, value) :: rest => ',' :: stringText key.toList ++ ':' :: text value ++ entriesTail rest
termination_by structural entries => entries

end

/-- A line break and the indentation of a depth, two blanks each. -/
def lineBreak (depth : Nat) : List Char :=
  '\n' :: List.replicate (2 * depth) ' '

mutual

/-- The indented text of a value at a depth. -/
def indented (depth : Nat) : Value → List Char
  | .list [] => ['[', ']']
  | .list (item :: rest) =>
    '[' :: lineBreak (depth + 1) ++ indented (depth + 1) item ++
      indentedItems (depth + 1) rest ++ lineBreak depth ++ [']']
  | .object [] => ['\x7b', '\x7d']
  | .object ((key, value) :: rest) =>
    '\x7b' :: lineBreak (depth + 1) ++ stringText key.toList ++ ':' :: ' ' ::
      indented (depth + 1) value ++ indentedEntries (depth + 1) rest ++ lineBreak depth ++
      ['\x7d']
  | value => text value
termination_by structural value => value

/-- The items after the first one of an indented list. -/
def indentedItems (depth : Nat) : List Value → List Char
  | [] => []
  | item :: rest => ',' :: lineBreak depth ++ indented depth item ++ indentedItems depth rest
termination_by structural items => items

/-- The entries after the first one of an indented object. -/
def indentedEntries (depth : Nat) : List (String × Value) → List Char
  | [] => []
  | (key, value) :: rest =>
    ',' :: lineBreak depth ++ stringText key.toList ++ ':' :: ' ' :: indented depth value ++
      indentedEntries depth rest
termination_by structural entries => entries

end

end StreamQuery.Json

namespace StreamQuery.Value

/-- The compact JSON text of a value. -/
def toJson (value : Value) : String :=
  String.ofList (Json.text value)

/-- The indented JSON text of a value. -/
def toIndentedJson (value : Value) : String :=
  String.ofList (Json.indented 0 value)

/-- The text of a value in texts: nothing for null, a string as it is, else the JSON text. -/
def display : Value → String
  | .null => ""
  | .str s => s
  | value => value.toJson

end StreamQuery.Value

namespace StreamQuery

/-- The key of a tuple of values, by which rows are grouped and told apart. -/
def tupleKey (values : List Value) : String :=
  (Value.list values).toJson

end StreamQuery
