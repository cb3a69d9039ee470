import StreamQuery.Unicode.CaseData
import StreamQuery.Unicode.Category
import StreamQuery.Unicode.Property

/-!
# Case mappings

Upper and lower case of characters and texts. A character may have several characters as its
upper or lower case; in a text a capital sigma at the end of a word has its own lower case.
-/

namespace StreamQuery.Unicode

/-- The uppercase form of a character. -/
def upper (c : Char) : List Char :=
  if c.toNat < 128 then [c.toUpper]
  else match simpleUppercase.image? c.toNat with
    | some image => [Char.ofNat image]
    | none => match multipleUppercase.find? (·.1 == c.toNat) with
      | some (_, images) => images.map Char.ofNat
      | none => [c]

/-- The lowercase form of a character on its own. -/
def lower (c : Char) : List Char :=
  if c.toNat < 128 then [c.toLower]
  else if c.toNat == 0x130 then ['i', Char.ofNat 0x307]
  else match simpleLowercase.image? c.toNat with
    | some image => [Char.ofNat image]
    | none => [c]

/-- The uppercase form of a text. -/
def upperText (text : List Char) : List Char :=
  text.flatMap upper

/-- Whether the first character that case mapping does not look through is cased. -/
def meetsCased (text : List Char) : Bool :=
  match text.dropWhile isCaseIgnorable with
  | c :: _ => isCased c
  | [] => false

/-- The lowercase form of a text whose earlier characters, last one first, are `before`. -/
def lowerTextAfter (before : List Char) : List Char → List Char
  | [] => []
  | c :: rest =>
    (if c.toNat == 0x3A3 then
      [if meetsCased before && !meetsCased rest then Char.ofNat 0x3C2 else Char.ofNat 0x3C3]
    else lower c) ++ lowerTextAfter (c :: before) rest

/-- The lowercase form of a text. -/
def lowerText (text : List Char) : List Char :=
  lowerTextAfter [] text

/-- The uppercase form of a string. -/
def toUpper (text : String) : String :=
  String.ofList (upperText text.toList)

/-- The lowercase form of a string. -/
def toLower (text : String) : String :=
  String.ofList (lowerText text.toList)

/-- The simple case folding of a code point. -/
def fold (code : Nat) : Nat :=
  if code < 128 then (Char.ofNat code).toLower.toNat
  else (simpleFolding.image? code).getD code

/-- All code points with the same simple case folding as another. -/
def caseVariants (code : Nat) : CodePointSet :=
  let folded := fold code
  .ofCodes (folded :: simpleFolding.preimages folded)

/-- The code points of a set with all that have the same simple case folding as one of them. -/
def CodePointSet.foldCase (set : CodePointSet) : CodePointSet :=
  let pairs := simpleFolding.pairs
  let folded := CodePointSet.ofCodes ((pairs.filter fun (code, image) =>
    set.contains code || set.contains image).map (·.2))
  .unionAll [set, folded, .ofCodes ((pairs.filter (folded.contains ·.2)).map (·.1))]

/-!
## Changes of case

The code points that a case mapping changes.
-/

/-- Code points that lowercasing changes. -/
def changesWhenLowercasedSet : CodePointSet :=
  simpleLowercase.domain.union (.single 0x130)

/-- Code points that uppercasing changes. -/
def changesWhenUppercasedSet : CodePointSet :=
  simpleUppercase.domain.union (.ofCodes (multipleUppercase.toList.map (·.1)))

/-- Code points that titlecasing changes: those that uppercasing changes except the titlecase
letters and the Georgian letters, and the capital digraphs, which have a titlecase form. -/
def changesWhenTitlecasedSet : CodePointSet :=
  (changesWhenUppercasedSet.diff
    (Category.titlecaseLetterSet.union (.ofLines ["10D0-10FF"]))).union
    (.ofLines ["1C4 1C7 1CA 1F1"])

/-- Code points that full case folding changes once they are decomposed. -/
def changesWhenCasefoldedSet : CodePointSet :=
  (simpleFolding.domain.diff (.ofLines ["1FBE 1FD3 1FE3"])).union (.ofLines
    ["DF 130 149 587 1E9A 1F80-1F87 1F90-1F97 1FA0-1FA7 1FB2-1FB4 1FB7 1FC2-1FC4 1FC7 1FF2-1FF4",
      "1FF7 FB00-FB04 FB06 FB13-FB17"])

/-- Code points that some case mapping changes. -/
def changesWhenCasemappedSet : CodePointSet :=
  .unionAll [changesWhenLowercasedSet, changesWhenUppercasedSet, changesWhenTitlecasedSet]

end StreamQuery.Unicode
