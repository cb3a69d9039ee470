import StreamQuery.Unicode.Property

/-!
# Patterns

Regular expressions over characters, with the properties of them that their automata depend on.
-/

namespace StreamQuery

open Unicode (CodePointSet)

/-- A condition on a position between two characters. -/
inductive PositionTest where
  | textStart
  | textEnd
  | lineStart (crlf : Bool)
  | lineEnd (crlf : Bool)
  | wordBoundary (unicode : Bool)
  | noWordBoundary (unicode : Bool)
  | wordStart (unicode : Bool)
  | wordEnd (unicode : Bool)
  | wordStartHalf (unicode : Bool)
  | wordEndHalf (unicode : Bool)
  deriving DecidableEq, Repr

/-- A regular expression. A text has one character or more, and a sequence or a choice two parts
or more. -/
inductive Pattern where
  | empty
  | verbatim (chars : List Char)
  | one (set : CodePointSet)
  | test (condition : PositionTest)
  | group (index : Nat) (name : Option String) (inner : Pattern)
  | sequence (parts : List Pattern)
  | choice (branches : List Pattern)
  | repeated (inner : Pattern) (least : Nat) (most : Option Nat) (greedy : Bool)

instance : Inhabited Pattern := ⟨.empty⟩

/-- Word characters, of all scripts or of ASCII alone. -/
def isWordChar (unicode : Bool) (c : Char) : Bool :=
  if unicode then Unicode.isWord c else c.isAlphanum || c == '_'

/-- Whether a condition holds between the character before a position and the one after it. -/
def PositionTest.holds (condition : PositionTest) (before after : Option Char) : Bool :=
  let word (unicode : Bool) (c : Option Char) : Bool := c.any (isWordChar unicode)
  match condition with
  | .textStart => before.isNone
  | .textEnd => after.isNone
  | .lineStart false => before.isNone || before == some '\n'
  | .lineEnd false => after.isNone || after == some '\n'
  | .lineStart true =>
    before.isNone || before == some '\n' || (before == some '\r' && after != some '\n')
  | .lineEnd true =>
    after.isNone || after == some '\r' || (after == some '\n' && before != some '\r')
  | .wordBoundary u => word u before != word u after
  | .noWordBoundary u => word u before == word u after
  | .wordStart u => !word u before && word u after
  | .wordEnd u => word u before && !word u after
  | .wordStartHalf u => !word u before
  | .wordEndHalf u => !word u after

namespace Pattern

/-! ### The lengths of matches -/

/-- The sum of lengths that are all known. -/
def sumLengths : List (Option Nat) → Option Nat
  | [] => some 0
  | length :: rest => do some ((← length) + (← sumLengths rest))

/-- The choice of a length among some that are all known. -/
def pickLength (pick : Nat → Nat → Nat) : List (Option Nat) → Option Nat
  | [] => none
  | [length] => length
  | length :: rest => do some (pick (← length) (← pickLength pick rest))

mutual

/-- The least number of characters of a match. It is unknown of a pattern with a part that matches
nothing. -/
def minLength : Pattern → Option Nat
  | .empty | .test _ => some 0
  | .verbatim chars => some chars.length
  | .one set => if set.isEmpty then none else some 1
  | .group _ _ inner => inner.minLength
  | .sequence parts => sumLengths (minLengths parts)
  | .choice branches => pickLength min (minLengths branches)
  | .repeated inner least _ _ => inner.minLength.map (least * ·)
termination_by structural pattern => pattern

/-- The least numbers of characters of matches of patterns. -/
def minLengths : List Pattern → List (Option Nat)
  | [] => []
  | part :: rest => part.minLength :: minLengths rest
termination_by structural parts => parts

end

mutual

/-- The largest number of characters of a match, if there is one. It is unknown of a pattern with a
part that matches nothing. -/
def maxLength : Pattern → Option Nat
  | .empty | .test _ => some 0
  | .verbatim chars => some chars.length
  | .one set => if set.isEmpty then none else some 1
  | .group _ _ inner => inner.maxLength
  | .sequence parts => sumLengths (maxLengths parts)
  | .choice branches => pickLength max (maxLengths branches)
  | .repeated inner _ most _ => do some ((← most) * (← inner.maxLength))
termination_by structural pattern => pattern

/-- The largest numbers of characters of matches of patterns. -/
def maxLengths : List Pattern → List (Option Nat)
  | [] => []
  | part :: rest => part.maxLength :: maxLengths rest
termination_by structural parts => parts

end

/-- Whether a pattern may match between two characters. -/
def mayBeEmpty (pattern : Pattern) : Bool :=
  !pattern.minLength.any (0 < ·)

/-- Whether a pattern matches between two characters only. -/
def isAlwaysEmpty (pattern : Pattern) : Bool :=
  pattern.maxLength == some 0

/-! ### Groups -/

mutual

/-- The numbers and names of the groups of a pattern. -/
def groups : Pattern → List (Nat × Option String)
  | .empty | .verbatim _ | .one _ | .test _ => []
  | .group index name inner => (index, name) :: inner.groups
  | .sequence parts => groupsOfAll parts
  | .choice branches => groupsOfAll branches
  | .repeated inner _ _ _ => inner.groups
termination_by structural pattern => pattern

/-- The numbers and names of the groups of patterns. -/
def groupsOfAll : List Pattern → List (Nat × Option String)
  | [] => []
  | part :: rest => part.groups ++ groupsOfAll rest
termination_by structural parts => parts

end

/-! ### Anchors -/

mutual

/-- Whether all matches begin at the start of the text, or end at its end. -/
def isAnchored (atEnd : Bool) : Pattern → Bool
  | .empty | .verbatim _ | .one _ => false
  | .test condition => condition == if atEnd then .textEnd else .textStart
  | .group _ _ inner => inner.isAnchored atEnd
  | .sequence parts => someAnchored atEnd parts
  | .choice branches => allAnchored atEnd branches
  | .repeated inner least _ _ => 0 < least && inner.isAnchored atEnd
termination_by structural pattern => pattern

/-- Whether one of the parts up to the first that may have characters, or after the last of them, is
anchored. -/
def someAnchored (atEnd : Bool) : List Pattern → Bool
  | [] => false
  | part :: rest =>
    if atEnd then someAnchored true rest || (rest.all isAlwaysEmpty && part.isAnchored true)
    else part.isAnchored false || (part.isAlwaysEmpty && someAnchored false rest)
termination_by structural parts => parts

/-- Whether all patterns are anchored. -/
def allAnchored (atEnd : Bool) : List Pattern → Bool
  | [] => true
  | part :: rest => part.isAnchored atEnd && allAnchored atEnd rest
termination_by structural parts => parts

end

end Pattern

end StreamQuery
