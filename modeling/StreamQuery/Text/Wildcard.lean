/-!
# Wildcard patterns

`%` stands for any run of characters, `_` for one character and everything else for itself. The
matcher goes through the text from its end and keeps, for every suffix of the pattern, whether it
matches the text seen so far; its work is bounded by the product of the two lengths.
-/

namespace StreamQuery

/-- An element of a pattern. -/
inductive Wildcard where
  | run
  | one
  | exactly (c : Char)
  deriving DecidableEq, Repr

namespace Wildcard

/-- The element a character of a pattern stands for. -/
def ofChar (c : Char) : Wildcard :=
  if c == '%' then .run else if c == '_' then .one else .exactly c

/-- The elements of a pattern. -/
def parse (pattern : List Char) : List Wildcard :=
  pattern.map ofChar

/-- For every suffix of a pattern, longest first, whether it matches the empty text. -/
def emptyRow : List Wildcard → List Bool
  | [] => [true]
  | element :: rest =>
    let row := emptyRow rest
    (element == .run && row.headD false) :: row

/-- The row of a text with one more character in front. -/
def stepRow (c : Char) : List Wildcard → List Bool → List Bool
  | [], _ => [false]
  | element :: rest, row =>
    let next := stepRow c rest row.tail
    (match element with
      | .run => row.headD false || next.headD false
      | .one => row.tail.headD false
      | .exactly d => d == c && row.tail.headD false) :: next

/-- Whether a whole text matches a pattern. -/
def matchesAll (pattern : List Wildcard) (text : List Char) : Bool :=
  (text.foldr (fun c row => stepRow c pattern row) (emptyRow pattern)).headD false

/-- Characters that a regular expression escapes. -/
def isMeta (c : Char) : Bool :=
  "\\.+*?()|[]\x7b\x7d^$#&-~".toList.contains c

/-- The size of an element written as a regular expression, in bytes. -/
def size : Wildcard → Nat
  | .run => 2
  | .one => 1
  | .exactly c => if isMeta c then 2 else c.utf8Size

/-- The size of a pattern written as an anchored regular expression, in bytes. -/
def patternSize (pattern : List Wildcard) : Nat :=
  (pattern.map size).foldl (· + ·) 6

/-- The size up to which a pattern is accepted. -/
def sizeLimit : Nat := 1000

end Wildcard

end StreamQuery
