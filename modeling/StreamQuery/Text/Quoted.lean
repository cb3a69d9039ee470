import StreamQuery.Unicode.Property

/-!
# Quoted texts in messages

A text in double quotes. The quote, the backslash and everything that would not show are escaped.
-/

namespace StreamQuery.Text

/-- Characters that attach to the character before them. -/
def isExtending (c : Char) : Bool :=
  128 ≤ c.toNat && Unicode.graphemeExtendSet.contains c.toNat

/-- Characters that show by themselves: assigned ones except controls, formats, private use and
all spaces but the blank. -/
def isPrintable (c : Char) : Bool :=
  if c.toNat < 128 then 32 ≤ c.toNat && c.toNat != 127
  else Unicode.isLetter c ||
    [Unicode.Category.nonspacingMark, .spacingMark, .enclosingMark, .decimalNumber,
      .letterNumber, .otherNumber, .connectorPunctuation, .dashPunctuation, .openPunctuation,
      .closePunctuation, .initialPunctuation, .finalPunctuation, .otherPunctuation, .mathSymbol,
      .currencySymbol, .modifierSymbol, .otherSymbol].any (·.contains c)

/-- A code point written in braces after `\u`. -/
def escapedCodePoint (c : Char) : List Char :=
  '\\' :: 'u' :: '\x7b' :: Nat.toDigits 16 c.toNat ++ ['\x7d']

/-- A character inside double quotes. -/
def quotedChar (c : Char) : List Char :=
  if c == '\x00' then ['\\', '0']
  else if c == '\t' then ['\\', 't']
  else if c == '\r' then ['\\', 'r']
  else if c == '\n' then ['\\', 'n']
  else if c == '\\' || c == '"' then ['\\', c]
  else if isExtending c || !isPrintable c then escapedCodePoint c
  else [c]

/-- A text in double quotes. -/
def quoted (text : String) : String :=
  String.ofList ('"' :: text.toList.flatMap quotedChar ++ ['"'])

end StreamQuery.Text
