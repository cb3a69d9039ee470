import StreamQuery.Pattern.Form
import StreamQuery.Unicode.Case

/-!
# Code points of classes

The sets that classes stand for. Where patterns are read as Unicode, classes are sets of
characters of all scripts; elsewhere they are sets of ASCII characters, and a class that would
reach beyond them has no set.
-/

namespace StreamQuery.Pattern

open Unicode (CodePointSet)

/-! ### Classes by letter and by name -/

/-- The code points of a letter's class, of all scripts or of ASCII alone. -/
def LetterClass.codePoints (unicode : Bool) : LetterClass → CodePointSet
  | .digit => if unicode then Unicode.Category.decimalNumberSet else .range 0x30 0x39
  | .space => if unicode then Unicode.whiteSpaceSet else .ofLines ["9-D 20"]
  | .word => if unicode then Unicode.wordSet else .ofLines ["30-39 41-5A 5F 61-7A"]

/-- The code points of a named class. -/
def AsciiClass.codePoints : AsciiClass → CodePointSet
  | .alnum => .ofLines ["30-39 41-5A 61-7A"]
  | .alpha => .ofLines ["41-5A 61-7A"]
  | .ascii => .range 0 0x7F
  | .blank => .ofLines ["9 20"]
  | .cntrl => .ofLines ["0-1F 7F"]
  | .digit => .range 0x30 0x39
  | .graph => .range 0x21 0x7E
  | .lower => .range 0x61 0x7A
  | .print => .range 0x20 0x7E
  | .punct => .ofLines ["21-2F 3A-40 5B-60 7B-7E"]
  | .space => .ofLines ["9-D 20"]
  | .upper => .range 0x41 0x5A
  | .word => .ofLines ["30-39 41-5A 5F 61-7A"]
  | .xdigit => .ofLines ["30-39 41-46 61-66"]

/-! ### Case and complement -/

/-- A set of ASCII characters with the other case of its letters. -/
def foldAsciiCase (set : CodePointSet) : CodePointSet :=
  set.union (.ofCodes ((List.range 128).filter fun code =>
    (Char.ofNat code).isAlpha && set.contains (code ^^^ 0x20)))

namespace Flags

/-- A set with the case variants of its members if case is ignored. -/
def fold (flags : Flags) (set : CodePointSet) : CodePointSet :=
  if !flags.ignoreCase then set
  else if flags.unicode then set.foldCase
  else foldAsciiCase set

/-- A set or its complement. Sets of ASCII characters have no complement among them. -/
def negate? (flags : Flags) (negated : Bool) (set : CodePointSet) : Option CodePointSet :=
  if !negated then some set
  else if flags.unicode then some set.complement
  else none

/-- The code point of a character that stands for itself. -/
def codePoint? (flags : Flags) (literal : Literal) : Option Nat :=
  if flags.unicode || literal.char.toNat < 128 then some literal.char.toNat else none

/-- The code points of a letter's class or of its complement. -/
def letterSet? (flags : Flags) (kind : LetterClass) (negated : Bool) : Option CodePointSet :=
  flags.negate? negated (kind.codePoints flags.unicode)

/-- The code points with a property, or of those without it. -/
def propertySet? (flags : Flags) (query : Unicode.PropertyQuery) (negated : Bool) :
    Option CodePointSet := do
  if flags.unicode then flags.negate? negated (flags.fold (← query.codePoints?)) else none

end Flags

/-! ### Bracketed classes -/

/-- The set that an operator makes of two. -/
def SetOperator.apply : SetOperator → CodePointSet → CodePointSet → CodePointSet
  | .intersection, left, right => left.inter right
  | .difference, left, right => left.diff right
  | .symmetricDifference, left, right => left.symmDiff right

namespace ClassForm

mutual

/-- The code points of what stands inside brackets. Case variants join a set before its complement
is taken and before it meets an operator. -/
def codePoints? (flags : Flags) : ClassForm → Option CodePointSet
  | .empty => some .empty
  | .literal member => (flags.codePoint? member).map .single
  | .range first last => do some (.range (← flags.codePoint? first) (← flags.codePoint? last))
  | .ascii kind negated => flags.negate? negated (flags.fold kind.codePoints)
  | .letter kind negated => flags.letterSet? kind negated
  | .property query negated => flags.propertySet? query negated
  | .bracket negated inner => do flags.negate? negated (flags.fold (← inner.codePoints? flags))
  | .union items => do some (.unionAll (← codePointsOfAll? flags items))
  | .operation operator left right => do
    let left ← left.codePoints? flags
    let right ← right.codePoints? flags
    some (operator.apply (flags.fold left) (flags.fold right))
termination_by structural form => form

/-- The code points of each of some items. -/
def codePointsOfAll? (flags : Flags) : List ClassForm → Option (List CodePointSet)
  | [] => some []
  | item :: rest => do some ((← item.codePoints? flags) :: (← codePointsOfAll? flags rest))
termination_by structural items => items

end

end ClassForm

end StreamQuery.Pattern
