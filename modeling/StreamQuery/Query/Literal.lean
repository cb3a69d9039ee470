import StreamQuery.Error

/-!
# Quoted literals

Before a query is taken apart, every quoted literal is replaced by a placeholder, so that the
contents of literals never act as syntax. A table keeps the literals, and restoring puts them
back. Placeholders are two underscores, twelve ASCII letters and two underscores.
-/

namespace StreamQuery

/-- A literal without its quotes, escapes and doubled quotes as written. -/
structure Literal where
  quote : Char
  text : List Char
  deriving DecidableEq, Repr

namespace Literal

/-- Whether a character is a quote. -/
def isQuote (c : Char) : Bool :=
  c == '\'' || c == '"'

/-- What a character after a backslash stands for. -/
def escaped (c : Char) : Char :=
  if c == 'n' then '\n' else if c == 't' then '\t' else if c == 'r' then '\r' else c

/-- A text between quotes with its escapes and doubled quotes resolved. -/
def unescape (quote : Char) : List Char → List Char
  | [] => []
  | [c] => [c]
  | c :: d :: rest =>
    if c == quote && d == quote then c :: unescape quote rest
    else if c == '\\' then escaped d :: unescape quote rest
    else c :: unescape quote (d :: rest)

/-- The value of a literal. -/
def value (literal : Literal) : List Char :=
  unescape literal.quote literal.text

/-- A literal in its quotes. -/
def quoted (literal : Literal) : List Char :=
  literal.quote :: literal.text ++ [literal.quote]

/-- The text up to the closing quote, and what follows the quote. A backslash takes the character
after it along, and a doubled quote does not close. -/
def read? (quote : Char) : List Char → Option (List Char × List Char)
  | [] => none
  | [c] => if c == quote then some ([], []) else none
  | c :: d :: rest =>
    if c == '\\' || (c == quote && d == quote) then
      (read? quote rest).map fun (text, after) => (c :: d :: text, after)
    else if c == quote then some ([], d :: rest)
    else (read? quote (d :: rest)).map fun (text, after) => (c :: text, after)

theorem length_read? {quote : Char} {text literal after : List Char}
    (h : read? quote text = some (literal, after)) : after.length < text.length := by
  fun_induction read? quote text generalizing literal after with
  | case1 => simp at h
  | case2 => simp_all
  | case3 => simp_all
  | case4 c d rest _ ih =>
    obtain ⟨⟨inner, tail⟩, hread, heq⟩ := Option.map_eq_some_iff.1 h
    have := ih hread
    simp_all
    omega
  | case5 => simp_all
  | case6 c d rest _ _ ih =>
    obtain ⟨⟨inner, tail⟩, hread, heq⟩ := Option.map_eq_some_iff.1 h
    have := ih hread
    simp_all
    omega

end Literal

namespace Placeholder

/-- The number of letters of a placeholder. -/
def letterCount : Nat := 12

/-- The number of characters of a placeholder. -/
def size : Nat := letterCount + 4

/-- The letters of a placeholder at the front of a text. -/
def lettersAt? (text : List Char) : Option (List Char) :=
  match text with
  | '_' :: '_' :: rest =>
    let letters := rest.take letterCount
    if letters.length = letterCount ∧ letters.all Char.isAlpha then
      match rest.drop letterCount with
      | '_' :: '_' :: _ => some letters
      | _ => none
    else none
  | _ => none

/-- Whether a text is a placeholder. -/
def isWhole (text : List Char) : Bool :=
  text.length == size && (lettersAt? text).isSome

/-- The digits of a number in base 26 as letters, least one first. -/
def lettersOf : Nat → Nat → List Char
  | 0, _ => []
  | count + 1, n => Char.ofNat ('a'.toNat + n % 26) :: lettersOf count (n / 26)

/-- The number of letters as digits in base 26, least one first; other letters count as some
digit, too. -/
def numberOf : List Char → Nat
  | [] => 0
  | c :: rest => (c.toNat - 'a'.toNat) % 26 + 26 * numberOf rest

/-- The placeholder with a number. -/
def ofNumber (n : Nat) : List Char :=
  '_' :: '_' :: lettersOf letterCount n ++ ['_', '_']

/-- The numbers of the placeholders that occur in a text. -/
def numbersIn : List Char → List Nat
  | [] => []
  | c :: rest =>
    match lettersAt? (c :: rest) with
    | some letters => numberOf letters :: numbersIn rest
    | none => numbersIn rest

/-- A number from which on the numbers up to a distance are not taken: of the blocks of that size
one more is searched than numbers are taken. -/
def freeBlock (taken : List Nat) (distance : Nat) : Nat :=
  let block := (List.range (taken.length + 1)).find? fun block =>
    taken.all fun n => n / distance != block
  block.getD 0 * distance

/-- Placeholders that do not occur in a text, as many as the text has characters. -/
def fresh (text : List Char) : Nat → List Char :=
  let start := freeBlock (numbersIn text) (text.length + 1)
  fun index => ofNumber (start + index)

end Placeholder

/-- The literals of a text by their placeholders, in order. -/
abbrev LiteralTable := List (List Char × Literal)

namespace LiteralTable

/-- The literal behind a placeholder. -/
def get? (table : LiteralTable) (placeholder : List Char) : Option Literal :=
  (table.find? (·.1 == placeholder)).map (·.2)

/-- What stands in a text for a placeholder: the literal with or without its quotes. A
placeholder without a literal stands for itself. -/
def restored (table : LiteralTable) (quotes : Bool) (placeholder : List Char) : List Char :=
  match table.get? placeholder with
  | some literal => if quotes then literal.quoted else literal.text
  | none => placeholder

/-- A text with placeholders replaced from the left; the first `skip` characters belong to a
placeholder already replaced. -/
def restoreFrom (table : LiteralTable) (quotes : Bool) (skip : Nat) : List Char → List Char
  | [] => []
  | c :: rest =>
    match skip with
    | skip + 1 => restoreFrom table quotes skip rest
    | 0 =>
      if (Placeholder.lettersAt? (c :: rest)).isSome then
        table.restored quotes ((c :: rest).take Placeholder.size) ++
          restoreFrom table quotes (Placeholder.size - 1) rest
      else c :: restoreFrom table quotes 0 rest

/-- A text with the literals put back, with or without their quotes. -/
def restore (table : LiteralTable) (quotes : Bool) (text : List Char) : List Char :=
  restoreFrom table quotes 0 text

/-- A text with its literals replaced by the placeholders `name index`, `name (index + 1)`, …, and
the table of the literals. -/
def extractFrom (name : Nat → List Char) (index : Nat) (text : List Char) :
    Except SyntaxFault (List Char × LiteralTable) :=
  match text with
  | [] => .ok ([], [])
  | c :: rest =>
    if Literal.isQuote c then
      match h : Literal.read? c rest with
      | none => .error (.unterminatedLiteral (String.ofList ((c :: rest).take 30)))
      | some (literal, after) => do
        have := Literal.length_read? h
        let (rewritten, table) ← extractFrom name (index + 1) after
        return (name index ++ rewritten, (name index, ⟨c, literal⟩) :: table)
    else do
      let (rewritten, table) ← extractFrom name index rest
      return (c :: rewritten, table)
termination_by text.length

/-- A text with its literals replaced by placeholders, and the table of the literals. -/
def extract (name : Nat → List Char) (text : List Char) :
    Except SyntaxFault (List Char × LiteralTable) :=
  extractFrom name 0 text

end LiteralTable

end StreamQuery
