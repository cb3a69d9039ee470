import StreamQuery.Number.Reading
import StreamQuery.Pattern.Form

/-!
# Reading escapes

What a backslash in a pattern and the text after it stand for. Where the verbose flag is set,
blanks and comments are passed over also between the digits of a code point and between the
letters of a name. A reader returns what it read and the rest of the text.
-/

namespace StreamQuery.Pattern

/-! ### Blanks and comments -/

/-- A text without the blanks and comments at its front; `inComment` tells whether it begins inside
a comment. -/
def dropBlanks (inComment : Bool) : List Char → List Char
  | [] => []
  | c :: rest =>
    if inComment then dropBlanks (c != '\n') rest
    else if Unicode.isWhitespace c then dropBlanks false rest
    else if c == '#' then dropBlanks true rest
    else c :: rest

/-- A text without the blanks and comments at its front if the verbose flag is set. -/
def skip (verbose : Bool) (text : List Char) : List Char :=
  if verbose then dropBlanks false text else text

theorem length_dropBlanks_le (inComment : Bool) (text : List Char) :
    (dropBlanks inComment text).length ≤ text.length := by
  induction text generalizing inComment with
  | nil => simp [dropBlanks]
  | cons c rest ih =>
    simp only [dropBlanks, List.length_cons]
    split
    · exact Nat.le_succ_of_le (ih _)
    · split
      · exact Nat.le_succ_of_le (ih _)
      · split
        · exact Nat.le_succ_of_le (ih _)
        · simp

theorem length_skip_le (verbose : Bool) (text : List Char) :
    (skip verbose text).length ≤ text.length := by
  unfold skip
  split
  · exact length_dropBlanks_le _ _
  · exact Nat.le_refl _

/-- The first character of a text that is no blank; after a `#` the first character of the
comment. -/
def firstVisible? (inComment : Bool) : List Char → Option Char
  | [] => none
  | c :: rest =>
    if Unicode.isWhitespace c then firstVisible? inComment rest
    else if !inComment && c == '#' then firstVisible? true rest
    else some c

/-- The character that decides what a hyphen in brackets means. -/
def glance (verbose : Bool) (text : List Char) : Option Char :=
  if verbose then (firstVisible? false text).or text.head? else text.head?

/-! ### Code points -/

/-- Whether a character is a hexadecimal digit. -/
def isHexDigit (c : Char) : Bool :=
  (Number.digitValue? 16 c).isSome

/-- The character of a code point written in hexadecimal digits. -/
def charOfDigits? (digits : List Char) : Option Char := do
  let code ← Number.naturalOfDigits? 16 digits
  if code.isValidChar then some (Char.ofNat code) else none

/-- A fixed count of hexadecimal digits. -/
def hexDigits? (verbose : Bool) : Nat → List Char → Option (List Char × List Char)
  | 0, text => some ([], text)
  | _ + 1, [] => none
  | count + 1, c :: rest =>
    if isHexDigit c then
      (hexDigits? verbose count (skip verbose rest)).map fun (digits, rest) => (c :: digits, rest)
    else none

/-- Characters up to a closing brace. -/
def untilBrace? (verbose : Bool) : List Char → Option (List Char × List Char)
  | [] => none
  | c :: rest =>
    if c == '\x7d' then some ([], rest)
    else (untilBrace? verbose (skip verbose rest)).map fun (inner, rest) => (c :: inner, rest)
termination_by text => text.length
decreasing_by
  have := length_skip_le verbose rest
  simp only [List.length_cons]
  omega

/-- A code point after `\x`, `\u` or `\U`: a fixed count of digits, or digits in braces. -/
def codePoint? (verbose : Bool) (count : Nat) (text : List Char) :
    Option (Literal × List Char) := do
  match skip verbose text with
  | '\x7b' :: rest =>
    let (digits, rest) ← untilBrace? verbose (skip verbose rest)
    if digits.all isHexDigit then
      let c ← charOfDigits? digits
      some (⟨c, false⟩, rest)
    else none
  | text =>
    let (digits, rest) ← hexDigits? verbose count text
    let c ← charOfDigits? digits
    some (⟨c, count == 2⟩, rest)

/-! ### Properties -/

/-- A text split around the first occurrence of another. -/
def splitAround? (mark : List Char) : List Char → Option (List Char × List Char)
  | [] => none
  | c :: rest =>
    if mark.isPrefixOf (c :: rest) then some ([], (c :: rest).drop mark.length)
    else (splitAround? mark rest).map fun (before, after) => (c :: before, after)

/-- The property named in braces, and whether its name asks for the others. -/
def queryOfName (name : List Char) : Unicode.PropertyQuery × Bool :=
  match splitAround? ['!', '='] name with
  | some (property, value) => (.valued property value, true)
  | none => match splitAround? [':'] name with
    | some (property, value) => (.valued property value, false)
    | none => match splitAround? ['='] name with
      | some (property, value) => (.valued property value, false)
      | none => (.named name, false)

/-- A property after `\p` or `\P`: one letter, or a name in braces. -/
def property? (verbose negated : Bool) (text : List Char) : Option (Form × List Char) := do
  match skip verbose text with
  | [] => none
  | '\x7b' :: rest =>
    let (name, rest) ← untilBrace? verbose (skip verbose rest)
    let (query, unequal) := queryOfName name
    some (.property query (negated != unequal), rest)
  | c :: rest => if c == '\\' then none else some (.property (.named [c]) negated, rest)

/-! ### Word boundaries -/

/-- Whether a character may be in the name of a kind of word boundary. -/
def isBoundaryChar (c : Char) : Bool :=
  c.isAlpha || c == '-'

/-- The kinds of word boundaries named in braces. -/
def boundaryOfName? (name : String) : Option Anchor :=
  match name with
  | "start" => some .wordStart
  | "end" => some .wordEnd
  | "start-half" => some .wordStartHalf
  | "end-half" => some .wordEndHalf
  | _ => none

/-- A word boundary after `\b`. Braces right after it name a kind of boundary, unless what is in
them cannot be a name: then they are a repetition. -/
def boundary? (verbose : Bool) (text : List Char) : Option (Form × List Char) :=
  match text with
  | '\x7b' :: rest =>
    match skip verbose rest with
    | [] => none
    | c :: inner =>
      if isBoundaryChar c then do
        let (name, rest) ← untilBrace? verbose (c :: inner)
        let anchor ← boundaryOfName? (String.ofList name)
        some (.anchor anchor, rest)
      else some (.anchor .wordBoundary, text)
  | _ => some (.anchor .wordBoundary, text)

/-! ### All escapes -/

/-- What a backslash and the text after it stand for. A letter or a digit without a meaning of its
own is refused; other ASCII characters but angles stand for themselves. -/
def escape? (verbose : Bool) : List Char → Option (Form × List Char)
  | [] => none
  | c :: rest =>
    let literal (code : Nat) : Option (Form × List Char) :=
      some (.literal ⟨Char.ofNat code, false⟩, rest)
    let codePoint (count : Nat) : Option (Form × List Char) :=
      (codePoint? verbose count rest).map fun (literal, rest) => (.literal literal, rest)
    match c with
    | 'x' => codePoint 2
    | 'u' => codePoint 4
    | 'U' => codePoint 8
    | 'p' => property? verbose false rest
    | 'P' => property? verbose true rest
    | 'd' => some (.letter .digit false, rest)
    | 'D' => some (.letter .digit true, rest)
    | 's' => some (.letter .space false, rest)
    | 'S' => some (.letter .space true, rest)
    | 'w' => some (.letter .word false, rest)
    | 'W' => some (.letter .word true, rest)
    | 'a' => literal 7
    | 'f' => literal 12
    | 't' => literal 9
    | 'n' => literal 10
    | 'r' => literal 13
    | 'v' => literal 11
    | 'A' => some (.anchor .textStart, rest)
    | 'z' => some (.anchor .textEnd, rest)
    | 'b' => boundary? verbose rest
    | 'B' => some (.anchor .noWordBoundary, rest)
    | '<' => some (.anchor .wordStart, rest)
    | '>' => some (.anchor .wordEnd, rest)
    | c => if c.toNat < 128 && !c.isAlphanum then literal c.toNat else none

end StreamQuery.Pattern
