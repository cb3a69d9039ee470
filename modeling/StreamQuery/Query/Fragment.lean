import StreamQuery.Query.Literal
import StreamQuery.Unicode.Property

/-!
# Fragments

The text of a clause as a sequence of quoted runs, words and single other characters. Changes
of clause texts look at fragments and never touch quoted runs. Fragments are written back to
exactly the text they came from.
-/

namespace StreamQuery

/-- A fragment of a clause text. -/
inductive Fragment where
  | quoted (run : List Char)
  | word (letters : List Char)
  | sign (c : Char)
  deriving DecidableEq, Repr

namespace Fragment

/-- Characters of words. -/
def isNameChar (c : Char) : Bool :=
  Unicode.isAlphanumeric c || c == '_'

/-- The text of a fragment. -/
def text : Fragment → List Char
  | .quoted run => run
  | .word letters => letters
  | .sign c => [c]

/-- The text of fragments. -/
def textOf (fragments : List Fragment) : List Char :=
  fragments.flatMap text

/-- A fragment that is being read, its latest character first. -/
inductive Reading where
  | nothing
  | word (latest : List Char)
  | quoted (quote : Char) (escaped : Bool) (latest : List Char)

/-- The fragments completed by a character when nothing is being read. -/
def begin (c : Char) : List Fragment × Reading :=
  if Literal.isQuote c then ([], .quoted c false [c])
  else if isNameChar c then ([], .word [c])
  else ([.sign c], .nothing)

/-- The fragments completed by one more character. -/
def Reading.step (reading : Reading) (c : Char) : List Fragment × Reading :=
  match reading with
  | .nothing => begin c
  | .word latest =>
    if isNameChar c then ([], .word (c :: latest))
    else (.word latest.reverse :: (begin c).1, (begin c).2)
  | .quoted quote true latest => ([], .quoted quote false (c :: latest))
  | .quoted quote false latest =>
    if c == '\\' then ([], .quoted quote true (c :: latest))
    else if c == quote then ([.quoted (c :: latest).reverse], .nothing)
    else ([], .quoted quote false (c :: latest))

/-- The fragment being read when the text ends. -/
def Reading.finish : Reading → List Fragment
  | .nothing => []
  | .word latest => [.word latest.reverse]
  | .quoted _ _ latest => [.quoted latest.reverse]

/-- The fragments of a text after what is being read. -/
def readFrom (reading : Reading) : List Char → List Fragment
  | [] => reading.finish
  | c :: rest => (reading.step c).1 ++ readFrom (reading.step c).2 rest

/-- The fragments of a text. -/
def ofText (text : List Char) : List Fragment :=
  readFrom .nothing text

/-- Whether a fragment is a blank. -/
def isBlank : Fragment → Bool
  | .sign c => Unicode.isWhitespace c
  | _ => false

/-- Whether a call's parenthesis follows. -/
def opensCall (rest : List Fragment) : Bool :=
  (rest.dropWhile isBlank).head? == some (.sign '(')

end Fragment

end StreamQuery
