import StreamQuery.Unicode.BinaryProperty
import StreamQuery.Unicode.Script

/-!
# Classes for breaking text

The classes by which texts are broken into grapheme clusters, words and sentences, as the rules of
text segmentation derive them from other properties. Code points in no class are left out.
-/

namespace StreamQuery.Unicode

/-- The code points of a script. -/
def scriptSet (code : String) : CodePointSet :=
  match scripts.find? (·.names.contains code) with
  | some script => script.codePoints
  | none => .empty

/-- Skin tones, which attach to the emoji before them. -/
def skinTones : CodePointSet := .range 0x1F3FB 0x1F3FF

/-- Formats that enclose digits and take part in numbers. -/
def numberFormats : CodePointSet :=
  prependedConcatenationMarkSet.diff (.single 0x70F)

/-! ### Grapheme clusters -/

/-- The classes for breaking between grapheme clusters. -/
inductive GraphemeBreak where
  | carriageReturn
  | lineFeed
  | control
  | extend
  | joiner
  | regionalIndicator
  | prepend
  | spacingMark
  | leadingJamo
  | vowelJamo
  | trailingJamo
  | openSyllable
  | closedSyllable
  deriving DecidableEq, Repr

namespace GraphemeBreak

/-- All classes. -/
def all : List GraphemeBreak :=
  [.carriageReturn, .lineFeed, .control, .extend, .joiner, .regionalIndicator, .prepend,
    .spacingMark, .leadingJamo, .vowelJamo, .trailingJamo, .openSyllable, .closedSyllable]

/-- The names of a class. -/
def names : GraphemeBreak → List String
  | carriageReturn => ["CR"]
  | lineFeed => ["LF"]
  | control => ["CN", "Control"]
  | extend => ["EX", "Extend"]
  | joiner => ["ZWJ"]
  | regionalIndicator => ["RI", "Regional_Indicator"]
  | prepend => ["PP", "Prepend"]
  | spacingMark => ["SM", "SpacingMark"]
  | leadingJamo => ["L"]
  | vowelJamo => ["V"]
  | trailingJamo => ["T"]
  | openSyllable => ["LV"]
  | closedSyllable => ["LVT"]

/-- Code points that attach to the one before them. -/
def extendSet : CodePointSet :=
  graphemeExtendSet.union skinTones

/-- Code points that attach to the one after them. -/
def prependSet : CodePointSet :=
  prependedConcatenationMarkSet.union (.ofLines
    ["D4E 111C2-111C3 113D1 1193F 11941 11A3A 11A84-11A89 11D46 11F02"])

/-- Hangul syllables without a final consonant. -/
def openSyllableSet : CodePointSet := .ofLines ["AC00-D788/1C"]

/-- The code points of a class. -/
def codePoints : GraphemeBreak → CodePointSet
  | carriageReturn => .single 0xD
  | lineFeed => .single 0xA
  | control =>
    (CodePointSet.unionAll
      [Category.anyOf [.lineSeparator, .paragraphSeparator, .control, .format],
        defaultIgnorableSet.diff assignedSet]).diff
      (.unionAll [.ofLines ["A D 200C 200D"], prependSet, extendSet])
  | extend => extendSet
  | joiner => .single 0x200D
  | regionalIndicator => regionalIndicatorSet
  | prepend => prependSet
  | spacingMark =>
    ((Category.spacingMarkSet.diff (.ofLines
      ["102B-102C 1038 1062-1064 1067-106D 1083 1087-108C 108F 109A-109C 1A61 1A63-1A64 AA7B AA7D",
        "11720-11721"])).union (.ofLines ["E33 EB3"])).diff extendSet
  | leadingJamo => .ofLines ["1100-115F A960-A97C"]
  | vowelJamo => .ofLines ["1160-11A7 D7B0-D7C6 16D63 16D67-16D6A"]
  | trailingJamo => .ofLines ["11A8-11FF D7CB-D7FB"]
  | openSyllable => openSyllableSet
  | closedSyllable => (CodePointSet.range 0xAC00 0xD7A3).diff openSyllableSet

end GraphemeBreak

/-! ### Words -/

/-- The classes for breaking between words. -/
inductive WordBreak where
  | carriageReturn
  | lineFeed
  | newline
  | extend
  | joiner
  | regionalIndicator
  | format
  | katakana
  | hebrewLetter
  | otherLetter
  | singleQuote
  | doubleQuote
  | insideNumberOrLetter
  | insideLetter
  | insideNumber
  | numeric
  | connector
  | segmentSpace
  deriving DecidableEq, Repr

namespace WordBreak

/-- All classes. -/
def all : List WordBreak :=
  [.carriageReturn, .lineFeed, .newline, .extend, .joiner, .regionalIndicator, .format, .katakana,
    .hebrewLetter, .otherLetter, .singleQuote, .doubleQuote, .insideNumberOrLetter, .insideLetter,
    .insideNumber, .numeric, .connector, .segmentSpace]

/-- The names of a class. -/
def names : WordBreak → List String
  | carriageReturn => ["CR"]
  | lineFeed => ["LF"]
  | newline => ["NL", "Newline"]
  | extend => ["Extend"]
  | joiner => ["ZWJ"]
  | regionalIndicator => ["RI", "Regional_Indicator"]
  | format => ["FO", "Format"]
  | katakana => ["KA", "Katakana"]
  | hebrewLetter => ["HL", "Hebrew_Letter"]
  | otherLetter => ["LE", "ALetter"]
  | singleQuote => ["SQ", "Single_Quote"]
  | doubleQuote => ["DQ", "Double_Quote"]
  | insideNumberOrLetter => ["MB", "MidNumLet"]
  | insideLetter => ["ML", "MidLetter"]
  | insideNumber => ["MN", "MidNum"]
  | numeric => ["NU", "Numeric"]
  | connector => ["EX", "ExtendNumLet"]
  | segmentSpace => ["WSegSpace"]

/-- Code points that attach to the one before them. -/
def extendSet : CodePointSet :=
  .unionAll [graphemeExtendSet, Category.spacingMarkSet, skinTones]

/-- Katakana letters and the signs used with them. -/
def katakanaSet : CodePointSet :=
  (scriptSet "Kana").union (.ofLines ["3031-3035 309B-309C 30A0 30FC FF70"])

/-- Hebrew letters. -/
def hebrewLetterSet : CodePointSet :=
  (scriptSet "Hebr").inter Category.otherLetterSet

/-- Letters of the scripts that are written without spaces between words. -/
def unspacedSet : CodePointSet :=
  .unionAll (["Thai", "Laoo", "Mymr", "Khmr", "Tale", "Talu", "Lana", "Tavt", "Ahom"].map scriptSet)

/-- All other letters of words. -/
def otherLetterSet : CodePointSet :=
  (alphabeticSet.diff (.unionAll
    [ideographicSet, katakanaSet, scriptSet "Hira", unspacedSet, extendSet, hebrewLetterSet])).union
    (.ofLines ["2C2-2C5 2D2-2D7 2DE-2DF 2E5-2EB 2ED 2EF-2FF 55A-55C 55E 58A 5F3 70F A708-A716",
      "A720-A721 A789-A78A AB5B"])

/-- Digits and the formats that enclose them. -/
def numericSet : CodePointSet :=
  .unionAll [Category.decimalNumberSet, .single 0x66B, numberFormats]

/-- The code points of a class. -/
def codePoints : WordBreak → CodePointSet
  | carriageReturn => .single 0xD
  | lineFeed => .single 0xA
  | newline => .ofLines ["B C 85 2028 2029"]
  | extend => extendSet
  | joiner => .single 0x200D
  | regionalIndicator => regionalIndicatorSet
  | format =>
    Category.formatSet.diff
      (.unionAll [.range 0x200B 0x200D, extendSet, numericSet, otherLetterSet])
  | katakana => katakanaSet
  | hebrewLetter => hebrewLetterSet
  | otherLetter => otherLetterSet
  | singleQuote => .single 0x27
  | doubleQuote => .single 0x22
  | insideNumberOrLetter => .ofLines ["2E 2018 2019 2024 FE52 FF07 FF0E"]
  | insideLetter => .ofLines ["3A B7 387 55F 5F4 2027 FE13 FE55 FF1A"]
  | insideNumber =>
    .ofLines ["2C 3B 37E 589 60C-60D 66C 7F8 2044 FE10 FE14 FE50 FE54 FF0C FF1B"]
  | numeric => numericSet
  | connector => Category.connectorPunctuationSet.union (.single 0x202F)
  | segmentSpace => Category.spaceSeparatorSet.diff (.ofLines ["A0 2007 202F"])

end WordBreak

/-! ### Sentences -/

/-- The classes for breaking between sentences. -/
inductive SentenceBreak where
  | carriageReturn
  | lineFeed
  | separator
  | extend
  | format
  | space
  | lower
  | upper
  | otherLetter
  | numeric
  | ambiguousTerminal
  | terminal
  | continuation
  | close
  deriving DecidableEq, Repr

namespace SentenceBreak

/-- All classes. -/
def all : List SentenceBreak :=
  [.carriageReturn, .lineFeed, .separator, .extend, .format, .space, .lower, .upper, .otherLetter,
    .numeric, .ambiguousTerminal, .terminal, .continuation, .close]

/-- The names of a class. -/
def names : SentenceBreak → List String
  | carriageReturn => ["CR"]
  | lineFeed => ["LF"]
  | separator => ["SE", "Sep"]
  | extend => ["EX", "Extend"]
  | format => ["FO", "Format"]
  | space => ["SP", "Sp"]
  | lower => ["LO", "Lower"]
  | upper => ["UP", "Upper"]
  | otherLetter => ["LE", "OLetter"]
  | numeric => ["NU", "Numeric"]
  | ambiguousTerminal => ["AT", "ATerm"]
  | terminal => ["ST", "STerm"]
  | continuation => ["SC", "SContinue"]
  | close => ["CL", "Close"]

/-- Code points that attach to the one before them. -/
def extendSet : CodePointSet :=
  .unionAll [graphemeExtendSet, Category.spacingMarkSet, .single 0x200D]

/-- Small letters but the Georgian ones, which also begin sentences. -/
def lowerSet : CodePointSet :=
  lowercaseSet.diff (extendSet.union (.ofLines ["10D0-10FA 10FD-10FF"]))

/-- Capital letters but the Georgian ones, which stand for emphasis. -/
def upperSet : CodePointSet :=
  (Category.titlecaseLetterSet.union uppercaseSet).diff (.range 0x1C90 0x1CBF)

/-- Points that end sentences or abbreviations. -/
def ambiguousTerminalSet : CodePointSet := .ofLines ["2E 2024 FE52 FF0E"]

/-- Digits, signs inside numbers and the formats that enclose digits. -/
def numericSet : CodePointSet :=
  .unionAll [Category.decimalNumberSet, .ofLines ["66B-66C"], numberFormats]

/-- The code points of a class. -/
def codePoints : SentenceBreak → CodePointSet
  | carriageReturn => .single 0xD
  | lineFeed => .single 0xA
  | separator => .ofLines ["85 2028 2029"]
  | extend => extendSet
  | format => Category.formatSet.diff (extendSet.union numericSet)
  | space => whiteSpaceSet.diff (.ofLines ["A D 85 2028 2029"])
  | lower => lowerSet
  | upper => upperSet
  | otherLetter =>
    (alphabeticSet.union (.single 0x5F3)).diff (.unionAll [lowerSet, upperSet, extendSet])
  | numeric => numericSet
  | ambiguousTerminal => ambiguousTerminalSet
  | terminal => sentenceTerminalSet.diff ambiguousTerminalSet
  | continuation =>
    .ofLines ["2C-2D 3A-3B 37E 55D 60C-60D 7F8 1802 1808 2013-2014 3001 FE10-FE11 FE13-FE14",
      "FE31-FE32 FE50-FE51 FE54-FE55 FE58 FE63 FF0C-FF0D FF1A-FF1B FF64"]
  | close =>
    (CodePointSet.unionAll
      [Category.anyOf [.openPunctuation, .closePunctuation, .initialPunctuation,
        .finalPunctuation], quotationMarkSet.diff (.ofLines ["FF02 FF07"]),
        .ofLines ["275B-2760 2E00-2E01 2E06-2E08 2E0B 1F676-1F678"]]).diff
      (sentenceTerminalSet.union ambiguousTerminalSet)

end SentenceBreak

end StreamQuery.Unicode
