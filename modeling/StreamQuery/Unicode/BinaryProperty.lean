import StreamQuery.Unicode.Case
import StreamQuery.Unicode.Property

/-!
# Binary properties

The properties that a character has or has not, with their names in the standard. Most are tables;
the others are put together from tables as the standard derives them.
-/

namespace StreamQuery.Unicode

/-! ### Derived sets -/

/-- All assigned code points. -/
def assignedSet : CodePointSet :=
  Category.anyOf Category.all

/-- Code points without a shape of their own. -/
def defaultIgnorableSet : CodePointSet :=
  (CodePointSet.unionAll
    [otherDefaultIgnorableSet, Category.formatSet, variationSelectorSet]).diff
    (.unionAll [whiteSpaceSet, .ofLines ["FFF9-FFFB 13430-1343F"], prependedConcatenationMarkSet])

/-- Assigned code points that stand for themselves: no controls and nothing that attaches. -/
def graphemeBaseSet : CodePointSet :=
  assignedSet.diff ((Category.anyOf
    [.control, .format, .privateUse, .lineSeparator, .paragraphSeparator]).union graphemeExtendSet)

/-- Code points that may start an identifier. -/
def idStartSet : CodePointSet :=
  (CodePointSet.unionAll [letterSet, Category.letterNumberSet, otherIdStartSet]).diff
    (patternSyntaxSet.union patternWhiteSpaceSet)

/-- Code points that may continue an identifier. -/
def idContinueSet : CodePointSet :=
  (CodePointSet.unionAll
    [idStartSet, Category.nonspacingMarkSet, Category.spacingMarkSet, Category.decimalNumberSet,
      Category.connectorPunctuationSet, otherIdContinueSet]).diff
    (patternSyntaxSet.union patternWhiteSpaceSet)

/-- Code points whose compatible form does not continue an identifier. -/
def unstableIdContinueSet : CodePointSet := .ofLines
  ["37A 309B-309C FC5E-FC63 FDFA-FDFB FE70-FE7E/2"]

/-- Further code points whose compatible form does not start an identifier. -/
def unstableIdStartSet : CodePointSet := .ofLines
  ["E33 EB3 FF9E-FF9F"]

/-! ### The properties -/

/-- The binary properties. -/
inductive BinaryProperty where
  | asciiHexDigit
  | alphabetic
  | bidiControl
  | bidiMirrored
  | caseIgnorable
  | cased
  | changesWhenCasefolded
  | changesWhenCasemapped
  | changesWhenLowercased
  | changesWhenTitlecased
  | changesWhenUppercased
  | dash
  | defaultIgnorable
  | deprecated
  | diacritic
  | emoji
  | emojiComponent
  | emojiModifier
  | emojiModifierBase
  | emojiPresentation
  | extendedPictographic
  | extender
  | graphemeBase
  | graphemeExtend
  | graphemeLink
  | hexDigit
  | hyphen
  | idCompatMathContinue
  | idCompatMathStart
  | idContinue
  | idStart
  | ideographic
  | idsBinaryOperator
  | idsTrinaryOperator
  | idsUnaryOperator
  | joinControl
  | logicalOrderException
  | lowercase
  | math
  | modifierCombiningMark
  | noncharacter
  | otherAlphabetic
  | otherDefaultIgnorable
  | otherGraphemeExtend
  | otherIdContinue
  | otherIdStart
  | otherLowercase
  | otherMath
  | otherUppercase
  | patternSyntax
  | patternWhiteSpace
  | prependedConcatenationMark
  | quotationMark
  | radical
  | regionalIndicator
  | sentenceTerminal
  | softDotted
  | terminalPunctuation
  | unifiedIdeograph
  | uppercase
  | variationSelector
  | whiteSpace
  | xidContinue
  | xidStart
  deriving DecidableEq, Repr

namespace BinaryProperty

/-- All binary properties. -/
def all : List BinaryProperty :=
  [.asciiHexDigit, .alphabetic, .bidiControl, .bidiMirrored, .caseIgnorable, .cased,
    .changesWhenCasefolded, .changesWhenCasemapped, .changesWhenLowercased, .changesWhenTitlecased,
    .changesWhenUppercased, .dash, .defaultIgnorable, .deprecated, .diacritic, .emoji,
    .emojiComponent, .emojiModifier, .emojiModifierBase, .emojiPresentation, .extendedPictographic,
    .extender, .graphemeBase, .graphemeExtend, .graphemeLink, .hexDigit, .hyphen,
    .idCompatMathContinue, .idCompatMathStart, .idContinue, .idStart, .ideographic,
    .idsBinaryOperator, .idsTrinaryOperator, .idsUnaryOperator, .joinControl,
    .logicalOrderException, .lowercase, .math, .modifierCombiningMark, .noncharacter,
    .otherAlphabetic, .otherDefaultIgnorable, .otherGraphemeExtend, .otherIdContinue,
    .otherIdStart, .otherLowercase, .otherMath, .otherUppercase, .patternSyntax,
    .patternWhiteSpace, .prependedConcatenationMark, .quotationMark, .radical, .regionalIndicator,
    .sentenceTerminal, .softDotted, .terminalPunctuation, .unifiedIdeograph, .uppercase,
    .variationSelector, .whiteSpace, .xidContinue, .xidStart]

/-- The names of a property. -/
def names : BinaryProperty → List String
  | asciiHexDigit => ["AHex", "ASCII_Hex_Digit"]
  | alphabetic => ["Alpha", "Alphabetic"]
  | bidiControl => ["Bidi_C", "Bidi_Control"]
  | bidiMirrored => ["Bidi_M", "Bidi_Mirrored"]
  | caseIgnorable => ["CI", "Case_Ignorable"]
  | cased => ["Cased"]
  | changesWhenCasefolded => ["CWCF", "Changes_When_Casefolded"]
  | changesWhenCasemapped => ["CWCM", "Changes_When_Casemapped"]
  | changesWhenLowercased => ["CWL", "Changes_When_Lowercased"]
  | changesWhenTitlecased => ["CWT", "Changes_When_Titlecased"]
  | changesWhenUppercased => ["CWU", "Changes_When_Uppercased"]
  | dash => ["Dash"]
  | defaultIgnorable => ["DI", "Default_Ignorable_Code_Point"]
  | deprecated => ["Dep", "Deprecated"]
  | diacritic => ["Dia", "Diacritic"]
  | emoji => ["Emoji"]
  | emojiComponent => ["EComp", "Emoji_Component"]
  | emojiModifier => ["EMod", "Emoji_Modifier"]
  | emojiModifierBase => ["EBase", "Emoji_Modifier_Base"]
  | emojiPresentation => ["EPres", "Emoji_Presentation"]
  | extendedPictographic => ["ExtPict", "Extended_Pictographic"]
  | extender => ["Ext", "Extender"]
  | graphemeBase => ["Gr_Base", "Grapheme_Base"]
  | graphemeExtend => ["Gr_Ext", "Grapheme_Extend"]
  | graphemeLink => ["Gr_Link", "Grapheme_Link"]
  | hexDigit => ["Hex", "Hex_Digit"]
  | hyphen => ["Hyphen"]
  | idCompatMathContinue => ["ID_Compat_Math_Continue"]
  | idCompatMathStart => ["ID_Compat_Math_Start"]
  | idContinue => ["IDC", "ID_Continue"]
  | idStart => ["IDS", "ID_Start"]
  | ideographic => ["Ideo", "Ideographic"]
  | idsBinaryOperator => ["IDSB", "IDS_Binary_Operator"]
  | idsTrinaryOperator => ["IDST", "IDS_Trinary_Operator"]
  | idsUnaryOperator => ["IDSU", "IDS_Unary_Operator"]
  | joinControl => ["Join_C", "Join_Control"]
  | logicalOrderException => ["LOE", "Logical_Order_Exception"]
  | lowercase => ["Lower", "Lowercase"]
  | math => ["Math"]
  | modifierCombiningMark => ["MCM", "Modifier_Combining_Mark"]
  | noncharacter => ["NChar", "Noncharacter_Code_Point"]
  | otherAlphabetic => ["OAlpha", "Other_Alphabetic"]
  | otherDefaultIgnorable => ["ODI", "Other_Default_Ignorable_Code_Point"]
  | otherGraphemeExtend => ["OGr_Ext", "Other_Grapheme_Extend"]
  | otherIdContinue => ["OIDC", "Other_ID_Continue"]
  | otherIdStart => ["OIDS", "Other_ID_Start"]
  | otherLowercase => ["OLower", "Other_Lowercase"]
  | otherMath => ["OMath", "Other_Math"]
  | otherUppercase => ["OUpper", "Other_Uppercase"]
  | patternSyntax => ["Pat_Syn", "Pattern_Syntax"]
  | patternWhiteSpace => ["Pat_WS", "Pattern_White_Space"]
  | prependedConcatenationMark => ["PCM", "Prepended_Concatenation_Mark"]
  | quotationMark => ["QMark", "Quotation_Mark"]
  | radical => ["Radical"]
  | regionalIndicator => ["RI", "Regional_Indicator"]
  | sentenceTerminal => ["STerm", "Sentence_Terminal"]
  | softDotted => ["SD", "Soft_Dotted"]
  | terminalPunctuation => ["Term", "Terminal_Punctuation"]
  | unifiedIdeograph => ["UIdeo", "Unified_Ideograph"]
  | uppercase => ["Upper", "Uppercase"]
  | variationSelector => ["VS", "Variation_Selector"]
  | whiteSpace => ["WSpace", "White_Space", "space"]
  | xidContinue => ["XIDC", "XID_Continue"]
  | xidStart => ["XIDS", "XID_Start"]

/-- The code points with a property. -/
def codePoints : BinaryProperty → CodePointSet
  | asciiHexDigit => .ofLines ["30-39 41-46 61-66"]
  | alphabetic => alphabeticSet
  | bidiControl => bidiControlSet
  | bidiMirrored => bidiMirroredSet
  | caseIgnorable => caseIgnorableSet
  | cased => casedSet
  | changesWhenCasefolded => changesWhenCasefoldedSet
  | changesWhenCasemapped => changesWhenCasemappedSet
  | changesWhenLowercased => changesWhenLowercasedSet
  | changesWhenTitlecased => changesWhenTitlecasedSet
  | changesWhenUppercased => changesWhenUppercasedSet
  | dash => dashSet
  | defaultIgnorable => defaultIgnorableSet
  | deprecated => deprecatedSet
  | diacritic => diacriticSet
  | emoji => emojiSet
  | emojiComponent => emojiComponentSet
  | emojiModifier => emojiModifierSet
  | emojiModifierBase => emojiModifierBaseSet
  | emojiPresentation => emojiPresentationSet
  | extendedPictographic => extendedPictographicSet
  | extender => extenderSet
  | graphemeBase => graphemeBaseSet
  | graphemeExtend => graphemeExtendSet
  | graphemeLink => graphemeLinkSet
  | hexDigit => hexDigitSet
  | hyphen => hyphenSet
  | idCompatMathContinue => idCompatMathStartSet.union idCompatMathDigitsSet
  | idCompatMathStart => idCompatMathStartSet
  | idContinue => idContinueSet
  | idStart => idStartSet
  | ideographic => ideographicSet
  | idsBinaryOperator => idsBinaryOperatorSet
  | idsTrinaryOperator => idsTrinaryOperatorSet
  | idsUnaryOperator => idsUnaryOperatorSet
  | joinControl => joinControlSet
  | logicalOrderException => logicalOrderExceptionSet
  | lowercase => lowercaseSet
  | math => Category.mathSymbolSet.union otherMathSet
  | modifierCombiningMark => modifierCombiningMarkSet
  | noncharacter => noncharacterSet
  | otherAlphabetic => otherAlphabeticSet
  | otherDefaultIgnorable => otherDefaultIgnorableSet
  | otherGraphemeExtend => otherGraphemeExtendSet
  | otherIdContinue => otherIdContinueSet
  | otherIdStart => otherIdStartSet
  | otherLowercase => otherLowercaseSet
  | otherMath => otherMathSet
  | otherUppercase => otherUppercaseSet
  | patternSyntax => patternSyntaxSet
  | patternWhiteSpace => patternWhiteSpaceSet
  | prependedConcatenationMark => prependedConcatenationMarkSet
  | quotationMark => quotationMarkSet
  | radical => radicalSet
  | regionalIndicator => regionalIndicatorSet
  | sentenceTerminal => sentenceTerminalSet
  | softDotted => softDottedSet
  | terminalPunctuation => terminalPunctuationSet
  | unifiedIdeograph => unifiedIdeographSet
  | uppercase => uppercaseSet
  | variationSelector => variationSelectorSet
  | whiteSpace => whiteSpaceSet
  | xidContinue => idContinueSet.diff unstableIdContinueSet
  | xidStart => idStartSet.diff (unstableIdContinueSet.union unstableIdStartSet)

end BinaryProperty

end StreamQuery.Unicode
