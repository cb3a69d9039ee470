import StreamQuery.Query.Fragment
import StreamQuery.Text.Search

/-!
# Shorthand

Clauses may write access to parts of a row in short: `.name` for a part of the row, `a.b` and
`a->b` for a part of `a`, and `*` as the argument of two aggregates. This module expands all of
them to plain item access.
-/

namespace StreamQuery.Shorthand

open Fragment

/-- The text after a call of `*`: blanks, `(`, blanks, `*`, blanks and `)`. -/
def dropStarCall? (text : List Char) : Option (List Char) :=
  match text.dropWhile Unicode.isWhitespace with
  | '(' :: rest => match rest.dropWhile Unicode.isWhitespace with
    | '*' :: rest => match rest.dropWhile Unicode.isWhitespace with
      | ')' :: rest => some rest
      | _ => none
    | _ => none
  | _ => none

/-- A text in which every call of a function on `*` is replaced; `previous` is the character
before it, and the first `skip` characters belong to a call already replaced. -/
def replaceStarFrom (name replacement : List Char) (previous : Option Char) (skip : Nat) :
    List Char → List Char
  | [] => []
  | c :: rest =>
    match skip with
    | skip + 1 => replaceStarFrom name replacement (some c) skip rest
    | 0 =>
      let after :=
        if previous.any Unicode.isWord || !name.isPrefixOf (c :: rest) then none
        else dropStarCall? ((c :: rest).drop name.length)
      match after with
      | some after =>
        replacement ++
          replaceStarFrom name replacement (some c) (rest.length - after.length) rest
      | none => c :: replaceStarFrom name replacement (some c) 0 rest

/-- The aggregates of `*`: a count of rows, and a count of distinct rows. -/
def expandStars (text : List Char) : List Char :=
  let counted := replaceStarFrom "count_agg".toList "count_agg(1)".toList none 0 text
  replaceStarFrom "count_distinct_agg".toList "count_distinct_agg(_values)".toList none 0 counted

/-- Whether a dot after a character belongs to what stands before it. -/
def attachesDot (c : Char) : Bool :=
  isNameChar c || ")]\x7d.\"'\x60".toList.contains c

/-- The first character of fragments. -/
def firstChar (fragments : List Fragment) : Option Char :=
  (textOf fragments).head?

/-- Dots that stand alone or before a name are completed by `row`; `previous` is the character
before the fragments. -/
def expandLeadingDots (previous : Option Char) : List Fragment → List Char
  | [] => []
  | fragment :: rest =>
    let next := expandLeadingDots (fragment.text.getLast?.or previous) rest
    if fragment = .sign '.' ∧ !previous.any attachesDot then
      match firstChar rest with
      | some c =>
        if Unicode.isAlphabetic c || c == '_' then "row.".toList ++ next
        else if c.isDigit then '.' :: next
        else "row".toList ++ next
      | none => "row".toList ++ next
    else fragment.text ++ next

/-- An item access by a constant name. -/
def itemAccess (name : List Char) : List Char :=
  "['".toList ++ name ++ "']".toList

/-- Whether a word may be a name. -/
def startsName (word : List Char) : Bool :=
  word.head?.any fun c => Unicode.isAlphabetic c || c == '_'

/-- Whether a dot after a fragment takes a part of a value: after a word that is no number, or
after a closing bracket. -/
def endsValue : Option Fragment → Bool
  | some (.word letters) => !letters.all Char.isDigit
  | some (.sign c) => c == ')' || c == ']' || c == '}'
  | _ => false

/-- Names after dots become item access, except in method calls; `previous` is the fragment before
the fragments. -/
def expandMembers (previous : Option Fragment) : List Fragment → List Char
  | .sign '.' :: .word name :: rest =>
    if endsValue previous && startsName name && !opensCall rest && !Placeholder.isWhole name then
      itemAccess name ++ expandMembers (some (.word name)) rest
    else '.' :: name ++ expandMembers (some (.word name)) rest
  | fragment :: rest => fragment.text ++ expandMembers (some fragment) rest
  | [] => []

/-- The item access that a word after an arrow means: by the literal behind a placeholder, by an
index, or by a name. -/
def arrowAccess? (key : List Char) : Option (List Char) :=
  if Placeholder.isWhole key || key.all Char.isDigit then some ('[' :: key ++ [']'])
  else if !key.head?.any Char.isDigit then some (itemAccess key)
  else none

/-- Arrows become item access. -/
def expandArrows : List Fragment → List Char
  | .sign '-' :: .sign '>' :: .word key :: rest =>
    (match arrowAccess? key with
      | some access => access
      | none => '-' :: '>' :: key) ++ expandArrows rest
  | fragment :: rest => fragment.text ++ expandArrows rest
  | [] => []

/-- A text with all shorthand expanded. -/
def expand (text : List Char) : List Char :=
  let text := expandStars text
  let text := expandLeadingDots none (ofText text)
  let text := expandMembers none (ofText text)
  let text := expandArrows (ofText text)
  Text.trim Unicode.isWhitespace text

end StreamQuery.Shorthand
