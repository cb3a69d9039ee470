/-!
# Sets of code points

Character properties are sets of code points, kept as sorted ranges that neither overlap nor touch
and written in hexadecimal. Membership is found by bisection. The algebra of sets passes over the
code points `D800` to `DFFF`, which are no characters.
-/

namespace StreamQuery.Unicode

/-- The value of a hexadecimal digit; other characters count zero. -/
def hexDigitValue (c : Char) : Nat :=
  if '0' ≤ c && c ≤ '9' then c.toNat - '0'.toNat
  else if 'A' ≤ c && c ≤ 'F' then c.toNat - 'A'.toNat + 10
  else if 'a' ≤ c && c ≤ 'f' then c.toNat - 'a'.toNat + 10
  else 0

/-- The number written in hexadecimal digits. -/
def hexValue (digits : List Char) : Nat :=
  digits.foldl (fun value c => 16 * value + hexDigitValue c) 0

/-- The parts of a text between separators. -/
def fields (separator : Char) : List Char → List (List Char)
  | [] => [[]]
  | c :: rest =>
    if c == separator then [] :: fields separator rest
    else match fields separator rest with
      | [] => [[c]]
      | part :: parts => (c :: part) :: parts

/-- An inclusive range written `FIRST-LAST`, or `FIRST` for a single code point. -/
def rangeOfText (text : List Char) : Nat × Nat :=
  match fields '-' text with
  | first :: last :: _ => (hexValue first, hexValue last)
  | _ => (hexValue text, hexValue text)

/-- A range, or single code points at equal distances written `FIRST-LAST/DISTANCE`. -/
def rangesOfText (text : List Char) : List (Nat × Nat) :=
  match fields '/' text with
  | range :: distance :: _ =>
    let (first, last) := rangeOfText range
    let distance := hexValue distance
    (List.range ((last - first) / distance + 1)).map fun i =>
      (first + i * distance, first + i * distance)
  | _ => [rangeOfText text]

/-- The ranges of a line, separated by blanks. -/
def rangesOfLine (line : String) : List (Nat × Nat) :=
  (fields ' ' line.toList).flatMap rangesOfText

/-- The last code point. -/
def lastCodePoint : Nat := 0x10FFFF

/-- The code point of the next character. -/
def following (code : Nat) : Nat :=
  if code = 0xD7FF then 0xE000 else code + 1

/-- The code point of the character before. -/
def preceding (code : Nat) : Nat :=
  if code = 0xE000 then 0xD7FF else code - 1

/-- A set of code points as inclusive ranges, sorted, without overlaps and with gaps between. -/
structure CodePointSet where
  ranges : Array (Nat × Nat)
  deriving DecidableEq, Repr, Inhabited

namespace CodePointSet

/-- Sorted ranges after `current`, those that touch it joined to it. -/
def joinOnto (current : Nat × Nat) : List (Nat × Nat) → List (Nat × Nat)
  | [] => [current]
  | next :: rest =>
    if next.1 ≤ current.2 + 1 then joinOnto (current.1, max current.2 next.2) rest
    else current :: joinOnto next rest

/-- The set of ranges sorted by their first code points. -/
def ofSorted : List (Nat × Nat) → CodePointSet
  | [] => ⟨#[]⟩
  | first :: rest => ⟨(joinOnto first rest).toArray⟩

/-- The set of ranges in any order. -/
def ofRanges (ranges : List (Nat × Nat)) : CodePointSet :=
  ofSorted (ranges.mergeSort fun a b => a.1 ≤ b.1)

/-- The set of some code points. -/
def ofCodes (codes : List Nat) : CodePointSet :=
  ofRanges (codes.map fun code => (code, code))

/-- The set of the ranges of lines. -/
def ofLines (lines : List String) : CodePointSet :=
  ofRanges (lines.flatMap rangesOfLine)

/-- No code point. -/
def empty : CodePointSet := ⟨#[]⟩

/-- All code points. -/
def all : CodePointSet := ⟨#[(0, lastCodePoint)]⟩

/-- The code points from one to another. -/
def range (first last : Nat) : CodePointSet := ⟨#[(first, last)]⟩

/-- One code point. -/
def single (code : Nat) : CodePointSet := range code code

/-- Whether there is no code point in a set. -/
def isEmpty (set : CodePointSet) : Bool :=
  set.ranges.isEmpty

/-- The only code point of a set. -/
def only? (set : CodePointSet) : Option Nat :=
  match set.ranges.toList with
  | [(first, last)] => if first = last then some first else none
  | _ => none

/-- The first code point of a set. -/
def first? (set : CodePointSet) : Option Nat :=
  set.ranges[0]?.map (·.1)

/-- The last code point of a set. -/
def last? (set : CodePointSet) : Option Nat :=
  set.ranges.back?.map (·.2)

/-- Whether all code points are ASCII. -/
def isAscii (set : CodePointSet) : Bool :=
  set.last?.all (· < 128)

/-- Whether a code point lies in one of the ranges. -/
def contains (set : CodePointSet) (code : Nat) : Bool :=
  search 0 set.ranges.size
where
  search (low high : Nat) : Bool :=
    if low < high then
      let middle := (low + high) / 2
      match set.ranges[middle]? with
      | none => false
      | some (first, last) =>
        if code < first then search low middle
        else if last < code then search (middle + 1) high
        else true
    else false
  termination_by high - low

/-! ### The algebra of sets -/

/-- The code points of either set. -/
def union (left right : CodePointSet) : CodePointSet :=
  ofSorted (List.merge left.ranges.toList right.ranges.toList fun a b => a.1 ≤ b.1)

/-- The code points of any of some sets. -/
def unionAll (sets : List CodePointSet) : CodePointSet :=
  ofRanges (sets.flatMap (·.ranges.toList))

/-- The common parts of two lists of sorted ranges. -/
def commonRanges : List (Nat × Nat) → List (Nat × Nat) → List (Nat × Nat)
  | [], _ => []
  | _, [] => []
  | (a, b) :: left, (c, d) :: right =>
    let rest :=
      if b < d then commonRanges left ((c, d) :: right)
      else commonRanges ((a, b) :: left) right
    if max a c ≤ min b d then (max a c, min b d) :: rest else rest
termination_by left right => left.length + right.length

/-- The code points of both sets. -/
def inter (left right : CodePointSet) : CodePointSet :=
  ⟨(commonRanges left.ranges.toList right.ranges.toList).toArray⟩

/-- Sorted ranges without the parts in other sorted ranges. -/
def remainingRanges : List (Nat × Nat) → List (Nat × Nat) → List (Nat × Nat)
  | [], _ => []
  | left, [] => left
  | (a, b) :: left, (c, d) :: right =>
    if d < a then remainingRanges ((a, b) :: left) right
    else if b < c then (a, b) :: remainingRanges left ((c, d) :: right)
    else
      let rest :=
        if d < b then remainingRanges ((following d, b) :: left) right
        else remainingRanges left ((c, d) :: right)
      if a < c then (a, preceding c) :: rest else rest
termination_by left right => left.length + right.length

/-- The code points of the first set that are not in the second. -/
def diff (left right : CodePointSet) : CodePointSet :=
  ⟨(remainingRanges left.ranges.toList right.ranges.toList).toArray⟩

/-- The code points of one set alone. -/
def symmDiff (left right : CodePointSet) : CodePointSet :=
  (left.union right).diff (left.inter right)

/-- The ranges after `previous` and between sorted ranges. Between ranges that only the code points
of no character keep apart, the gap has the two characters next to them as its ends. -/
def gapsAfter (previous : Nat) : List (Nat × Nat) → List (Nat × Nat)
  | [] => if previous < lastCodePoint then [(following previous, lastCodePoint)] else []
  | (first, last) :: rest =>
    let low := following previous
    let high := preceding first
    (min low high, max low high) :: gapsAfter last rest

/-- The code points that are not in a set. -/
def complement (set : CodePointSet) : CodePointSet :=
  match set.ranges.toList with
  | [] => all
  | (first, last) :: rest =>
    let gaps := gapsAfter last rest
    ⟨(if 0 < first then (0, preceding first) :: gaps else gaps).toArray⟩

end CodePointSet

end StreamQuery.Unicode
