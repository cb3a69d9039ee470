import StreamQuery.Unicode.Category
import StreamQuery.Unicode.PropertyData

/-!
# Character properties

The character classes the query language is defined by. ASCII characters are decided directly,
so that closed facts about them evaluate without the tables.
-/

namespace StreamQuery.Unicode

/-- Letters of any kind. -/
def letterSet : CodePointSet :=
  Category.anyOf [.uppercaseLetter, .lowercaseLetter, .titlecaseLetter, .modifierLetter,
    .otherLetter]

/-- Marks of any kind. -/
def markSet : CodePointSet :=
  Category.anyOf [.nonspacingMark, .spacingMark, .enclosingMark]

/-- Numbers of any kind, fractions and letter numbers included. -/
def numberSet : CodePointSet :=
  Category.anyOf [.decimalNumber, .letterNumber, .otherNumber]

/-- Alphabetic code points. -/
def alphabeticSet : CodePointSet :=
  .unionAll [letterSet, Category.letterNumberSet, otherAlphabeticSet]

/-- Uppercase code points. -/
def uppercaseSet : CodePointSet :=
  Category.uppercaseLetterSet.union otherUppercaseSet

/-- Lowercase code points. -/
def lowercaseSet : CodePointSet :=
  Category.lowercaseLetterSet.union otherLowercaseSet

/-- Code points that have a case. -/
def casedSet : CodePointSet :=
  .unionAll [lowercaseSet, uppercaseSet, Category.titlecaseLetterSet]

/-- Code points that the surroundings of a letter are searched through for its case. -/
def caseIgnorableSet : CodePointSet :=
  (Category.anyOf [.nonspacingMark, .enclosingMark, .format, .modifierLetter,
    .modifierSymbol]).union wordMedialSet

/-- Blanks. -/
def whiteSpaceSet : CodePointSet := .ofLines
  ["9-D 20 85 A0 1680 2000-200A 2028-2029 202F 205F 3000"]

/-- The two controls that join letters or keep them apart. -/
def joinControlSet : CodePointSet := .range 0x200C 0x200D

/-- Code points that attach to the one before them. -/
def graphemeExtendSet : CodePointSet :=
  .unionAll [Category.nonspacingMarkSet, Category.enclosingMarkSet, otherGraphemeExtendSet]

/-- Word characters: alphabetic, marks, decimal digits, connectors and the two join controls. -/
def wordSet : CodePointSet :=
  .unionAll [alphabeticSet, markSet, Category.decimalNumberSet, Category.connectorPunctuationSet,
    joinControlSet]

/-- Letters of any kind. -/
def isLetter (c : Char) : Bool :=
  letterSet.contains c.toNat

/-- The Alphabetic property. -/
def isAlphabetic (c : Char) : Bool :=
  if c.toNat < 128 then c.isAlpha else alphabeticSet.contains c.toNat

/-- Numbers of any kind, fractions and letter numbers included. -/
def isNumeric (c : Char) : Bool :=
  if c.toNat < 128 then c.isDigit else numberSet.contains c.toNat

/-- Alphabetic or numeric. -/
def isAlphanumeric (c : Char) : Bool :=
  isAlphabetic c || isNumeric c

/-- Decimal digits of any script. -/
def isDecimalDigit (c : Char) : Bool :=
  if c.toNat < 128 then c.isDigit else Category.decimalNumber.contains c

/-- The White_Space property. -/
def isWhitespace (c : Char) : Bool :=
  let code := c.toNat
  (9 ≤ code && code ≤ 13) || code == 0x20 || code == 0x85 || code == 0xA0 || code == 0x1680 ||
    (0x2000 ≤ code && code ≤ 0x200A) || code == 0x2028 || code == 0x2029 || code == 0x202F ||
    code == 0x205F || code == 0x3000

/-- The Uppercase property. -/
def isUppercase (c : Char) : Bool :=
  if c.toNat < 128 then c.isUpper else uppercaseSet.contains c.toNat

/-- The Lowercase property. -/
def isLowercase (c : Char) : Bool :=
  if c.toNat < 128 then c.isLower else lowercaseSet.contains c.toNat

/-- Characters that have a case. -/
def isCased (c : Char) : Bool :=
  isLowercase c || isUppercase c || (c.toNat ≥ 128 && Category.titlecaseLetter.contains c)

/-- Characters that the surroundings of a letter are searched through for its case. -/
def isCaseIgnorable (c : Char) : Bool :=
  caseIgnorableSet.contains c.toNat

/-- Word characters: alphabetic, marks, decimal digits, connectors and the two join controls. -/
def isWord (c : Char) : Bool :=
  if c.toNat < 128 then c.isAlphanum || c == '_' else wordSet.contains c.toNat

/-- A property of the characters of a text is decided by these alone. Without this instance it
would be decided by all characters that there are. -/
instance decidableForallMem (p : Char → Prop) [DecidablePred p] (text : List Char) :
    Decidable (∀ c ∈ text, p c) :=
  List.decidableBAll p text

end StreamQuery.Unicode
