import StreamQuery.Pattern.Basic

/-!
# Simplified patterns

Patterns are built by functions that keep them simple: texts next to each other are one text, a
choice between characters is a set of characters, and what all branches of a choice begin with
comes before the choice.
-/

namespace StreamQuery.Pattern

open Unicode (CodePointSet)

/-! ### Equal patterns -/

mutual

/-- Whether two patterns are the same. -/
def same : Pattern → Pattern → Bool
  | .empty, .empty => true
  | .verbatim chars, .verbatim others => chars == others
  | .one set, .one other => set == other
  | .test condition, .test other => condition == other
  | .group index _ inner, .group otherIndex _ other => index == otherIndex && inner.same other
  | .sequence parts, .sequence others => allSame parts others
  | .choice branches, .choice others => allSame branches others
  | .repeated inner least most greedy, .repeated other otherLeast otherMost otherGreedy =>
    least == otherLeast && most == otherMost && greedy == otherGreedy && inner.same other
  | _, _ => false
termination_by structural pattern => pattern

/-- Whether two lists have the same patterns. -/
def allSame : List Pattern → List Pattern → Bool
  | [], [] => true
  | part :: rest, other :: others => part.same other && allSame rest others
  | _, _ => false
termination_by structural parts => parts

end

/-! ### Characters -/

/-- The pattern of one character of a set. -/
def ofSet (set : CodePointSet) : Pattern :=
  match set.only? with
  | some code => .verbatim [Char.ofNat code]
  | none => .one set

/-! ### Sequences -/

/-- The parts of a pattern as a sequence. -/
def parts : Pattern → List Pattern
  | .empty => []
  | .sequence parts => parts
  | pattern => [pattern]

/-- A part before others, joined to the first of them if both are texts. -/
def prepend (part : Pattern) (others : List Pattern) : List Pattern :=
  match part, others with
  | .verbatim chars, .verbatim more :: rest => .verbatim (chars ++ more) :: rest
  | _, _ => part :: others

/-- Patterns one after the other. -/
def ofParts (patterns : List Pattern) : Pattern :=
  match (patterns.flatMap parts).foldr prepend [] with
  | [] => .empty
  | [part] => part
  | parts => .sequence parts

/-! ### Choices -/

/-- The branches of a pattern as a choice. -/
def branches : Pattern → List Pattern
  | .choice branches => branches
  | pattern => [pattern]

/-- The code points of a pattern that is a text of one character. -/
def charSet? : Pattern → Option CodePointSet
  | .verbatim [c] => some (.single c.toNat)
  | _ => none

/-- The code points of a pattern that is a set. -/
def set? : Pattern → Option CodePointSet
  | .one set => some set
  | _ => none

/-- The common beginning of two lists of patterns. -/
def commonStart : List Pattern → List Pattern → List Pattern
  | part :: rest, other :: others =>
    if part.same other then part :: commonStart rest others else []
  | _, _ => []

/-- The parts of a pattern that is a sequence. -/
def sequence? : Pattern → Option (List Pattern)
  | .sequence parts => some parts
  | _ => none

/-- The choice between branches none of which is a choice. Branches that are single characters, and
branches that are sets, are one set. -/
def ofPlainBranches : List Pattern → Pattern
  | [] => .one .empty
  | [branch] => branch
  | branches =>
    match branches.mapM charSet? with
    | some sets => ofSet (.unionAll sets)
    | none => match branches.mapM set? with
      | some sets => ofSet (.unionAll sets)
      | none => .choice branches

/-- The choice between patterns. If all are sequences, what they begin with in common comes before
the choice between what is left of them. -/
def ofBranches (patterns : List Pattern) : Pattern :=
  let plain := patterns.flatMap branches
  match plain.mapM sequence? with
  | some (first :: second :: rest) =>
    let sequences := second :: rest
    let start := sequences.foldl commonStart first
    if start.isEmpty then .choice plain
    else
      let left := (first :: sequences).map fun parts => ofParts (parts.drop start.length)
      ofParts (start ++ [ofPlainBranches (left.flatMap branches)])
  | _ => ofPlainBranches plain

/-! ### Repetitions -/

/-- A pattern repeated. More than one repetition of a pattern without characters is one. -/
def ofRepeated (inner : Pattern) (least : Nat) (most : Option Nat) (greedy : Bool) : Pattern :=
  let (least, most) :=
    if inner.isAlwaysEmpty then (min least 1, some (most.elim 1 (min · 1))) else (least, most)
  if most = some 0 then .empty
  else if least = 1 ∧ most = some 1 then inner
  else .repeated inner least most greedy

end StreamQuery.Pattern
