import StreamQuery.Pattern.ClassSet
import StreamQuery.Pattern.Parser
import StreamQuery.Pattern.Simplified

/-!
# The meaning of written patterns

The pattern that a written form stands for under the flags in force. Flags set inside a group hold
up to its end, also in the branches after the one that sets them. Where patterns are not read as
Unicode, forms that could match a part of a character have no meaning.
-/

namespace StreamQuery.Pattern

open Unicode (CodePointSet)

namespace Flags

/-- The pattern of a character that stands for itself. -/
def literal? (flags : Flags) (literal : Literal) : Option Pattern :=
  let c := literal.char
  if flags.unicode then
    some (if flags.ignoreCase then ofSet (Unicode.caseVariants c.toNat) else .verbatim [c])
  else if c.toNat < 128 then
    some (if flags.ignoreCase then ofSet (foldAsciiCase (.single c.toNat)) else .verbatim [c])
  else if literal.isByte then none
  else some (.verbatim [c])

/-- The code points that a dot stands for. -/
def dotSet? (flags : Flags) : Option CodePointSet :=
  if !flags.unicode then none
  else if flags.dotAll then some .all
  else if flags.crlf then some (CodePointSet.complement (.ofLines ["A D"]))
  else some (CodePointSet.complement (.single 0xA))

/-- The condition that an anchor stands for. -/
def positionTest (flags : Flags) : Anchor → PositionTest
  | .caret => if flags.multiLine then .lineStart flags.crlf else .textStart
  | .dollar => if flags.multiLine then .lineEnd flags.crlf else .textEnd
  | .textStart => .textStart
  | .textEnd => .textEnd
  | .wordBoundary => .wordBoundary flags.unicode
  | .noWordBoundary => .noWordBoundary flags.unicode
  | .wordStart => .wordStart flags.unicode
  | .wordEnd => .wordEnd flags.unicode
  | .wordStartHalf => .wordStartHalf flags.unicode
  | .wordEndHalf => .wordEndHalf flags.unicode

end Flags

namespace Form

mutual

/-- The pattern of a form and the flags in force after it. -/
def meaning? (flags : Flags) : Form → Option (Pattern × Flags)
  | .empty => some (.empty, flags)
  | .setFlags change => some (.empty, flags.after change)
  | .literal member => do some (← flags.literal? member, flags)
  | .dot => do some (ofSet (← flags.dotSet?), flags)
  | .anchor position => some (.test (flags.positionTest position), flags)
  | .letter kind negated => do some (ofSet (← flags.letterSet? kind negated), flags)
  | .property query negated => do some (ofSet (← flags.propertySet? query negated), flags)
  | .bracket negated inner => do
    some (ofSet (← (ClassForm.bracket negated inner).codePoints? flags), flags)
  | .repeated inner least most greedy => do
    let (inner, after) ← inner.meaning? flags
    some (ofRepeated inner least most (greedy != flags.swapGreed), after)
  | .group index name inner => do
    let (inner, _) ← inner.meaning? flags
    some (.group index name inner, flags)
  | .flagged change inner => do
    let (inner, _) ← inner.meaning? (flags.after change)
    some (inner, flags)
  | .sequence parts => do
    let (parts, after) ← meaningOfAll? flags parts
    some (Pattern.ofParts parts, after)
  | .choice branches => do
    let (branches, after) ← meaningOfAll? flags branches
    some (Pattern.ofBranches branches, after)
termination_by structural form => form

/-- The patterns of forms in a row and the flags in force after them. -/
def meaningOfAll? (flags : Flags) : List Form → Option (List Pattern × Flags)
  | [] => some ([], flags)
  | form :: rest => do
    let (pattern, after) ← form.meaning? flags
    let (patterns, after) ← meaningOfAll? after rest
    some (pattern :: patterns, after)
termination_by structural forms => forms

end

end Form

/-- The pattern of a text, if the text is well written and has a meaning. -/
def ofText? (text : List Char) : Option Pattern := do
  let (pattern, _) ← (← Form.ofText? text).meaning? {}
  some pattern

end StreamQuery.Pattern
